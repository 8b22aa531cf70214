/-
SigScan.SignatureSet.File — signature files.

A set is kept as a JSON record of its version and its definitions. An offset is written
only if there is one; it may be given as null, which is the same as leaving it out.
Whether the place holds a pointer is always written and may be left out as well, but it
is never null.

Main statements: what a complete record must know (`finish_eq_some_iff`).
-/
import SigScan.Error
import SigScan.Json.Collection
import SigScan.Json.Layout
import SigScan.SignatureSet

namespace SigScan

open Json (Reader)

/-- The largest offset. -/
def maxOffset : Nat := UInt32.size - 1

namespace Definition

/-! ## Reading -/

/-- What is known of a definition while its record is read. -/
structure Draft where
  name : Option String := none
  pattern : Option String := none
  /-- Null is known, too. -/
  offset : Option (Option Nat) := none
  deref : Option Bool := none

/-- The fields of a definition. -/
def fields : List (Json.Field Draft) :=
  [.kept "name" Draft.name Json.string fun d s => { d with name := some s },
    .kept "pattern" Draft.pattern Json.string fun d s => { d with pattern := some s },
    .kept "offset" Draft.offset (Json.optional (Json.natural maxOffset)) fun d n =>
      { d with offset := some n },
    .kept "deref" Draft.deref Json.bool fun d b => { d with deref := some b }]

/-- A definition needs a name and a pattern. -/
def Draft.finish (d : Draft) : Option Definition :=
  match d.name, d.pattern with
  | some name, some pattern =>
    some ⟨name, pattern, (d.offset.getD none).map UInt32.ofNat, d.deref.getD false⟩
  | _, _ => none

theorem Draft.finish_eq_some_iff {d : Draft} {r : Definition} :
    d.finish = some r ↔
      d.name = some r.name ∧ d.pattern = some r.pattern
        ∧ (d.offset.getD none).map UInt32.ofNat = r.offset ∧ d.deref.getD false = r.deref := by
  obtain ⟨name, pattern, offset, deref⟩ := d
  obtain ⟨n, p, o, b⟩ := r
  cases name <;> cases pattern <;> simp [Draft.finish]

/-- Reads a definition. -/
def ofJson : Reader Definition :=
  Json.record fields {} Draft.finish

/-! ## Writing -/

/-- The members of a written definition. -/
def jsonMembers (d : Definition) : List (String × List Char) :=
  [("name", Json.quote d.name), ("pattern", Json.quote d.pattern)]
    ++ (match d.offset with
      | none => []
      | some n => [("offset", Text.Decimal.text n.toNat)])
    ++ [("deref", Json.boolText d.deref)]

/-- The written form of a definition at some depth. -/
def toJson (depth : Nat) (d : Definition) : List Char :=
  Json.objectText depth d.jsonMembers

end Definition

namespace SignatureSet

/-- What is known of a set while its record is read. -/
structure Draft where
  version : Option String := none
  signatures : Option (List Definition) := none

/-- The fields of a set. -/
def fields : List (Json.Field Draft) :=
  [.kept "version" Draft.version Json.string fun d s => { d with version := some s },
    .kept "signatures" Draft.signatures (Json.array Definition.ofJson) fun d ds =>
      { d with signatures := some ds }]

/-- A set needs both of its fields. -/
def Draft.finish (d : Draft) : Option SignatureSet :=
  match d.version, d.signatures with
  | some version, some signatures => some ⟨version, signatures⟩
  | _, _ => none

/-- Reads a set from the text of a file. -/
def ofJson (text : String) : Except Json.Fault SignatureSet :=
  Json.whole (Json.record fields {} Draft.finish) text

/-- The text of a file that holds a set. -/
def toJson (set : SignatureSet) : String :=
  String.ofList (Json.objectText 0
    [("version", Json.quote set.version),
      ("signatures", Json.arrayText 1 (set.signatures.map (Definition.toJson 2)))])

/-- Reads a set from what reading its file gave. -/
def load (contents : Except FileFault ByteArray) : Except Error SignatureSet :=
  match FileFault.decode contents with
  | .error fault => .error (.file fault)
  | .ok text => (ofJson text).mapError .json

end SignatureSet

end SigScan
