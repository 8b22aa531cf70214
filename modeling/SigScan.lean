import SigScan.AddressCache
import SigScan.AddressCache.File
import SigScan.AddressTable
import SigScan.Command.Arguments
import SigScan.Command.Compile
import SigScan.Command.Failure
import SigScan.Command.HexAddress
import SigScan.Command.Outcome
import SigScan.Command.Program
import SigScan.Command.Scan
import SigScan.Command.Settings
import SigScan.Error
import SigScan.FileFault
import SigScan.Instant
import SigScan.Instant.Calendar
import SigScan.Instant.Text
import SigScan.Json.Collection
import SigScan.Json.Fault
import SigScan.Json.Layout
import SigScan.Json.Number
import SigScan.Json.Quoted
import SigScan.Json.Reader
import SigScan.Json.Scalar
import SigScan.Json.Skip
import SigScan.Main
import SigScan.Memory.Bytes
import SigScan.Memory.Index
import SigScan.Memory.Region
import SigScan.Memory.Snapshot
import SigScan.Memory.Source
import SigScan.NameTable
import SigScan.Pattern
import SigScan.Proofs.Memory.Lanes
import SigScan.Proofs.Scan.Carry
import SigScan.Proofs.Scan.Group
import SigScan.Proofs.Signature.Matching
import SigScan.Registry
import SigScan.Resolve
import SigScan.Scan.Config
import SigScan.Scan.Indexed
import SigScan.Scan.Pass
import SigScan.Scan.Run
import SigScan.Scan.Tally
import SigScan.Scan.Window
import SigScan.Session
import SigScan.Signature
import SigScan.Signature.Idiom
import SigScan.Signature.Packed
import SigScan.SignatureSet
import SigScan.SignatureSet.File
import SigScan.Text.Blank
import SigScan.Text.Decimal
import SigScan.Text.Digits
import SigScan.Text.Hex
import SigScan.Text.Hidden
import SigScan.Text.Quoted
import SigScan.Toml.Document
import SigScan.Toml.Key
import SigScan.Toml.Moment
import SigScan.Toml.Number
import SigScan.Toml.Quoted
import SigScan.Toml.Reader
import SigScan.Toml.Table
import SigScan.Toml.Value
import SigScan.Proofs.Scan.Grid
import SigScan.Proofs.Scan.Occurrence
import SigScan.Proofs.NameTable
import SigScan.Proofs.Session.Move
import SigScan.Proofs.Session.Call
import SigScan.Proofs.Session.WriteOnce
import SigScan.Proofs.Session.WellFormed
import SigScan.Proofs.Session.History
import SigScan.Proofs.Session.Attempt
import SigScan.Proofs.Threads.Schedule
import SigScan.Proofs.Threads.Gate
import SigScan.Proofs.Threads.Passes
import SigScan.Proofs.Threads.Once
import SigScan.Proofs.Threads.Alone
import SigScan.Proofs.Relocation.Memory
import SigScan.Proofs.Relocation.Scan
import SigScan.Proofs.Relocation.Session
import SigScan.Proofs.Session.Cached
import SigScan.Proofs.Relocation.Cache
import SigScan.Proofs.Command.Run
import SigScan.Proofs.Command.Rerun
import SigScan.Proofs.Command.CacheAge
import SigScan.Proofs.Scan.Gap
import SigScan.Proofs.Signature.Window
import SigScan.Proofs.Signature.Representation
import SigScan.Proofs.Text.Digits
import SigScan.Proofs.Pattern.Grammar
import SigScan.Proofs.Signature.Observation
import SigScan.Proofs.Resolve.Buffer
import SigScan.Proofs.Resolve.Displacement
import SigScan.Proofs.Memory.Extent
import SigScan.Proofs.Scan.Overrun
import SigScan.Proofs.Scan.Within
import SigScan.Proofs.Scan.ChunkSize
import SigScan.Proofs.Memory.Edits
import SigScan.Proofs.Session.Failures
import SigScan.Proofs.Registry.Listing
import SigScan.Proofs.Scan.Merging
import SigScan.Proofs.Text.ByteOrder
import SigScan.Proofs.Registry.Confluence
import SigScan.Proofs.Session.Refusal
import SigScan.Proofs.Session.Report
import SigScan.Proofs.Command.Report
import SigScan.Proofs.Text.Trim
import SigScan.Proofs.Signature.Padding
import SigScan.Proofs.Scan.Padding
import SigScan.Proofs.Json.Written
import SigScan.Proofs.SignatureSet.RoundTrip
import SigScan.Proofs.Instant.RoundTrip
import SigScan.Proofs.AddressCache.RoundTrip
import SigScan.Proofs.Command.HexAddress
import SigScan.Proofs.Command.HexAddress.Grammar
import SigScan.Proofs.Command.Description
