/-
SigScan.Command.Scan — the scan command.

It loads a signature set, registers all of it, and resolves it against a dump. A cache
that is trusted primes the session first; what is left is found in one pass. The report
has a line for each entry. When a pass was run and found anything, the cache is written
anew; it keeps the age of the cache whose addresses it holds.

A pass may be stopped for a number that does not fit in 64 bits; the command then ends
without a report, and no cache is written (`attempt`).
-/
import SigScan.Command.Outcome
import SigScan.Memory.Snapshot
import SigScan.SignatureSet.File

namespace SigScan.Command.Scan

open SigScan.Text

/-- Where the bytes of the module come from. -/
inductive Origin where
  /-- A file with the bytes of a module that was placed at `base`. -/
  | dump (path : String) (base : UInt64)
  /-- A running process. -/
  | process (pid : UInt32)
deriving DecidableEq, Repr

/-- What the command is asked for. -/
structure Request where
  signatures : String
  origin : Origin
  cache : Option String
  settings : SigScan.Scan.Config

/-! ## The cache of a run -/

/-- Primes a session from a cache if it is trusted; the cache is returned if it primed any
entry. -/
def applyCache (cached : Option AddressCache) (now : Instant) (version : String) (base : UInt64)
    (t : AddressTable) : Option AddressCache × AddressTable :=
  match cached with
  | none => (none, t)
  | some c =>
    if c.isValidFor now version then
      let (primed, t') := c.apply t base
      (if primed = 0 then none else some c, t')
    else (none, t)

/-- The cache to write at the end of a run: none if no pass was run or nothing has an
address. -/
def refreshed (applied : Option AddressCache) (now : Instant) (version : String) (base : UInt64)
    (t : AddressTable) : Option AddressCache :=
  if t.scanCount = 0 then none
  else if t.report.resolved.isEmpty then none
  else
    let createdAt := (applied.map AddressCache.createdAt).getD now
    some (.capture version createdAt t.registry base)

/-! ## The report -/

/-- Text in a colour of the terminal, by its number. -/
def coloured (colour : Nat) (s : String) : String :=
  s!"\x1b[{colour}m{s}\x1b[39m"

/-- The colour of entries without an address. -/
def red : Nat := 31

/-- The colour of entries with an address. -/
def green : Nat := 32

/-- The colour of errors beside an address. -/
def yellow : Nat := 33

/-- Width of the column of names. -/
def nameWidth : Nat := 48

/-- A name filled up with spaces. -/
def column (name : String) : String :=
  name ++ String.ofList (List.replicate (nameWidth - name.length) ' ')

/-- An address as the report gives it. -/
def address (a : UInt64) : String :=
  "0x" ++ Hex.shortUpper a.toNat

/-- What the report says about the pointer of an entry. -/
def pointerText (t : AddressTable) (e : Entry) : String :=
  if e.deref then
    match (t.readPointer e.name).1 with
    | .ok pointer => " -> " ++ address pointer
    | .error error => " -> " ++ coloured yellow error.message
  else ""

/-- The line of an entry; an entry that is not settled has none. -/
def entryLine (base : UInt64) (t : AddressTable) (e : Entry) : Option String :=
  match e.state with
  | .resolved a =>
    some (coloured green "OK  " ++ " " ++ column e.name ++ " " ++ address a
      ++ " (+" ++ address (a - base) ++ ")" ++ pointerText t e)
  | .failed failure =>
    some (coloured red "FAIL" ++ " " ++ column e.name ++ " " ++ failure.kind.message)
  | .unresolved => none

/-- The lines about all entries, and a count of them. -/
def reportLines (base : UInt64) (t : AddressTable) : List String :=
  let resolved := t.report.resolved.length
  let total := resolved + t.report.failed.length
  "" :: t.registry.all.filterMap (entryLine base t)
    ++ ["", s!"Resolved {resolved}/{total} signatures ({t.scanCount} scan passes)"]

/-- The failure of a report with entries that have no address. -/
def incomplete (r : Report) : Option Failure :=
  if r.isComplete then none
  else some (.incomplete r.failed.length (r.resolved.length + r.failed.length))

/-! ## What a run works on -/

/-- What a run takes from its files, the cache apart. -/
structure Setup where
  version : String
  registry : Registry
  dump : String
  base : UInt64
  bytes : ByteArray

/-- Loads and registers the signatures and reads the dump. -/
def prepare (read : String → Except FileFault ByteArray) (r : Request) : Except Failure Setup :=
  match SignatureSet.load (read r.signatures) with
  | .error cause => .error (.signatures r.signatures cause)
  | .ok set =>
    match Registry.empty.registerAll set.signatures with
    | (.error cause, _) => .error (.set cause)
    | (.ok _, registry) =>
      match r.origin with
      | .process pid => .error (.process pid)
      | .dump path base =>
        match read path with
        | .error fault => .error (.dump path fault)
        | .ok bytes => .ok ⟨set.version, registry, path, base, bytes⟩

namespace Setup

/-- The session of a run, before a cache is applied and before a pass. -/
def session (s : Setup) (config : SigScan.Scan.Config) : AddressTable :=
  let m := Snapshot.ofDump s.bytes s.base
  { AddressTable.new m.source m.regions config with registry := s.registry }

/-- The session of a run, after a cache was applied and before a pass. -/
def primed (s : Setup) (read : String → Except FileFault ByteArray) (now : Instant)
    (r : Request) : AddressTable :=
  (applyCache (r.cache.bind fun path => AddressCache.load (read path)) now s.version s.base
    (s.session r.settings)).2

/-- The first line that a run prints. -/
def banner (s : Setup) : String :=
  s!"Loaded dump {s.dump} ({(Snapshot.ofDump s.bytes s.base).size} bytes at {address s.base})"

end Setup

/-! ## The command -/

/-- Resolves a session over a dump and reports it. -/
def report (read : String → Except FileFault ByteArray) (now : Instant) (r : Request)
    (version : String) (base : UInt64) (t : AddressTable) : Outcome :=
  let cached := r.cache.bind fun path => AddressCache.load (read path)
  let (applied, t) := applyCache cached now version base t
  let t := t.runPass
  let write := r.cache.bind fun path =>
    (refreshed applied now version base t).map fun c => (path, c)
  { lines := reportLines base t, write := write, failure := incomplete t.report }

/-- Runs the command; `read` gives the contents of files, and `now` is the time. -/
def run (read : String → Except FileFault ByteArray) (now : Instant) (r : Request) : Outcome :=
  match prepare read r with
  | .error failure => .failed failure
  | .ok s =>
    let o := report read now r s.version s.base (s.session r.settings)
    { o with lines := s.banner :: o.lines }

/-- Runs the command, unless its pass is stopped. -/
def attempt (read : String → Except FileFault ByteArray) (now : Instant) (r : Request) :
    Except SigScan.Scan.Overrun Outcome :=
  match prepare read r with
  | .error failure => .ok (.failed failure)
  | .ok s =>
    (s.primed read now r).attemptPass.map fun _ => run read now r

end SigScan.Command.Scan
