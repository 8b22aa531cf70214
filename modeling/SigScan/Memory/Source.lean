/-
SigScan.Memory.Source — memory as an answer to reads.

A source answers a read of `size` bytes at an address with bytes or with a fault. A
source should return exactly the bytes asked for; one that returns fewer is met with a
fault of its own wherever a whole integer is needed.
-/
import SigScan.Memory.Bytes

namespace SigScan

/-- Why a read failed. -/
inductive ReadFault.Cause where
  /-- No segment of a snapshot holds the whole range. -/
  | notMapped (size : Nat)
  /-- A read of a whole integer came back with another number of bytes. -/
  | short (expected received : Nat)
  /-- A range that no address space has: it starts at zero or runs past the top. -/
  | invalidRange (size : Nat)
  /-- What a host reports in its own words. -/
  | reported (text : String)
deriving DecidableEq, Repr

/-- A failed read and where it started. -/
structure ReadFault where
  address : UInt64
  cause : ReadFault.Cause
deriving DecidableEq, Repr

/-- The cause as messages give it. -/
def ReadFault.Cause.text : ReadFault.Cause → String
  | notMapped size => s!"{size} bytes not mapped in snapshot"
  | short expected received => s!"short read: expected {expected} bytes, got {received}"
  | invalidRange size => s!"invalid range of {size} bytes"
  | reported text => text

/-- Memory that can be read. It stands still: what a read is answered with depends on the
address and the size alone, not on when it is asked or on reads before it. -/
structure Source where
  /-- Answers a read of a number of bytes at an address. -/
  read : UInt64 → Nat → Except ReadFault ByteArray

namespace Source

/-- The word of `size` bytes at an address, the first byte lowest; exactly that many bytes
must come back. -/
def readWord (m : Source) (address : UInt64) (size : Nat) : Except ReadFault UInt64 :=
  match m.read address size with
  | .error fault => .error fault
  | .ok bytes =>
    if bytes.size = size then .ok (Bytes.word (Bytes.toList bytes))
    else .error ⟨address, .short size bytes.size⟩

/-- The signed 32-bit integer at an address. -/
def readInt32 (m : Source) (address : UInt64) : Except ReadFault Int32 :=
  (m.readWord address 4).map fun w => w.toUInt32.toInt32

/-- The unsigned 64-bit integer at an address. -/
def readUInt64 (m : Source) (address : UInt64) : Except ReadFault UInt64 :=
  m.readWord address 8

/-- The address space of a running process, given what each address holds. A range must
not start at address zero nor run past the top; that it is mapped is the caller's promise. -/
def ofContents (contents : UInt64 → UInt8) : Source where
  read address size :=
    if address = 0 ∨ UInt64.size ≤ address.toNat + size then
      .error ⟨address, .invalidRange size⟩
    else
      .ok ⟨Array.ofFn fun i : Fin size => contents (address + UInt64.ofNat i)⟩

end Source

end SigScan
