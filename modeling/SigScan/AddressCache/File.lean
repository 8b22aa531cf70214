/-
SigScan.AddressCache.File — cache files.

A cache is kept as a JSON record of its version, the time it was made, and an object that
gives the addresses by name, in the order of names. Where a name is given twice the last
address counts. A file that cannot be read or does not hold a cache is as good as none.

Main statements: what a complete record must know (`finish_eq_some_iff`), and a file that
is not there gives no cache (`load_error`).
-/
import SigScan.AddressCache
import SigScan.FileFault
import SigScan.Instant.Text
import SigScan.Json.Collection
import SigScan.Json.Layout

namespace SigScan

open Json (Reader)

/-- The largest address. -/
def maxAddress : Nat := UInt64.size - 1

namespace AddressCache

/-! ## Reading -/

/-- A time in its written form; a string of another kind is of no use. -/
def instantOfJson : Reader Instant := fun cs =>
  match Json.string cs with
  | .error fault => .error fault
  | .ok (s, rest) =>
    match Instant.ofText? s with
    | none => .error .mismatch
    | some t => .ok (t, rest)

/-- Addresses by name. -/
def addressesOfJson : Reader (NameTable UInt64) := fun cs =>
  match Json.object (Json.natural maxAddress) cs with
  | .error fault => .error fault
  | .ok (pairs, rest) => .ok (.ofPairs (pairs.map fun (name, n) => (name, UInt64.ofNat n)), rest)

/-- What is known of a cache while its record is read. -/
structure Draft where
  version : Option String := none
  createdAt : Option Instant := none
  addresses : Option (NameTable UInt64) := none

/-- The fields of a cache. -/
def fields : List (Json.Field Draft) :=
  [.kept "version" Draft.version Json.string fun d s => { d with version := some s },
    .kept "created_at" Draft.createdAt instantOfJson fun d t => { d with createdAt := some t },
    .kept "addresses" Draft.addresses addressesOfJson fun d t => { d with addresses := some t }]

/-- A cache needs all of its fields. -/
def Draft.finish (d : Draft) : Option AddressCache :=
  match d.version, d.createdAt, d.addresses with
  | some version, some createdAt, some addresses => some ⟨version, createdAt, addresses⟩
  | _, _, _ => none

theorem Draft.finish_eq_some_iff {d : Draft} {c : AddressCache} :
    d.finish = some c ↔
      d.version = some c.version ∧ d.createdAt = some c.createdAt
        ∧ d.addresses = some c.addresses := by
  obtain ⟨version, createdAt, addresses⟩ := d
  obtain ⟨v, t, a⟩ := c
  cases version <;> cases createdAt <;> cases addresses <;> simp [Draft.finish]

/-- Reads a cache from the text of a file. -/
def ofJson (text : String) : Except Json.Fault AddressCache :=
  Json.whole (Json.record fields {} Draft.finish) text

/-- Reads a cache from what reading its file gave. -/
def load (contents : Except FileFault ByteArray) : Option AddressCache :=
  match FileFault.decode contents with
  | .error _ => none
  | .ok text =>
    match ofJson text with
    | .error _ => none
    | .ok c => some c

/-! ## Writing -/

/-- The text of a file that holds a cache. -/
def toJson (c : AddressCache) : String :=
  String.ofList (Json.objectText 0
    [("version", Json.quote c.version),
      ("created_at", Json.quote c.createdAt.text),
      ("addresses", Json.objectText 1
        (c.addresses.pairs.map fun (name, offset) => (name, Text.Decimal.text offset.toNat)))])

theorem load_error (fault : FileFault) : load (.error fault) = none := rfl

end AddressCache

end SigScan
