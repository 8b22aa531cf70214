/-
SigScan.Memory.Index — where byte values stand in a byte array.

A search for many byte values goes through an array once and notes the places of each
value that is wanted. An index holds these places and knows that they are right; about a
value that was not wanted it says nothing.

Main statements: the places of a value are exactly those where it stands
(`Index.mem_places?_iff`), in increasing order (`Index.pairwise_places?`).
-/
import SigScan.Memory.Bytes

namespace SigScan.Bytes

/-- The places of each byte value, or nothing for a value that is not wanted. -/
abbrev PlaceTable := Array (Option (Array Nat))

/-- The first `count` places of an array noted behind those that the table holds. -/
def notePlaces (bytes : ByteArray) (count : Nat) (table : PlaceTable) : PlaceTable :=
  count.fold (fun i _ table =>
    table.modify (atOrZero bytes i).toNat (Option.map (·.push i))) table

/-- The first `count` places where a value stands. -/
def placesOf (bytes : ByteArray) (count value : Nat) : List Nat :=
  (List.range count).filter fun i => (atOrZero bytes i).toNat == value

theorem getElem?_notePlaces (bytes : ByteArray) (count : Nat) (table : PlaceTable) (value : Nat) :
    (notePlaces bytes count table)[value]? =
      table[value]?.map
        (Option.map fun places => places ++ (placesOf bytes count value).toArray) := by
  induction count with
  | zero =>
    have h : notePlaces bytes 0 table = table := rfl
    rw [h, placesOf]
    cases table[value]? with
    | none => rfl
    | some places => cases places <;> simp
  | succ n ih =>
    have h : notePlaces bytes (n + 1) table =
        (notePlaces bytes n table).modify (atOrZero bytes n).toNat (Option.map (·.push n)) := rfl
    rw [h, Array.getElem?_modify, ih]
    by_cases hv : (atOrZero bytes n).toNat = value
    · have hp : placesOf bytes (n + 1) value = placesOf bytes n value ++ [n] := by
        simp [placesOf, List.range_succ, List.filter_append, hv]
      rw [if_pos hv, hp, Option.map_map]
      congr 1
      funext places
      cases places <;> simp
    · have hp : placesOf bytes (n + 1) value = placesOf bytes n value := by
        simp [placesOf, List.range_succ, List.filter_append, hv]
      rw [if_neg hv, hp]

/-- The places of the wanted byte values of an array. -/
structure Index (bytes : ByteArray) where
  table : PlaceTable
  toList_eq : ∀ value places, table[value]? = some (some places) →
    places.toList = placesOf bytes bytes.size value

namespace Index

/-- An index of no values. -/
def nothing (bytes : ByteArray) : Index bytes where
  table := #[]
  toList_eq := by simp

/-- Which of the 256 byte values are among the given ones. -/
def wanted (values : List UInt8) : Array Bool :=
  values.foldl (fun table v => table.setIfInBounds v.toNat true) (Array.replicate 256 false)

/-- The index of the wanted values. -/
def ofWanted (wanted : Array Bool) (bytes : ByteArray) : Index bytes where
  table := notePlaces bytes bytes.size (wanted.map fun w => if w then some #[] else none)
  toList_eq := by
    intro value places h
    rw [getElem?_notePlaces, Array.getElem?_map] at h
    cases hw : wanted[value]? with
    | none => simp [hw] at h
    | some w =>
      cases w with
      | false => simp [hw] at h
      | true =>
        simp only [hw, Option.map_some, if_true, Option.some.injEq] at h
        simp [← h]

/-- The places where a byte value stands, if it was wanted. -/
def places? {bytes : ByteArray} (index : Index bytes) (b : UInt8) : Option (Array Nat) :=
  match index.table[b.toNat]? with
  | none => none
  | some places => places

theorem toList_places? {bytes : ByteArray} {index : Index bytes} {b : UInt8}
    {places : Array Nat} (h : index.places? b = some places) :
    places.toList = placesOf bytes bytes.size b.toNat := by
  unfold places? at h
  split at h
  · simp at h
  · next ht => exact index.toList_eq _ _ (h ▸ ht)

/-- The places of a value are exactly those where it stands. -/
theorem mem_places?_iff {bytes : ByteArray} {index : Index bytes} {b : UInt8}
    {places : Array Nat} (h : index.places? b = some places) {i : Nat} :
    i ∈ places.toList ↔ at? bytes i = some b := by
  rw [toList_places? h, placesOf, List.mem_filter, List.mem_range, beq_iff_eq, UInt8.toNat_inj]
  unfold atOrZero at?
  by_cases hi : i < bytes.size <;> simp [hi]

/-- The places of a value increase. -/
theorem pairwise_places? {bytes : ByteArray} {index : Index bytes} {b : UInt8}
    {places : Array Nat} (h : index.places? b = some places) :
    places.toList.Pairwise (· < ·) := by
  rw [toList_places? h, placesOf]
  exact List.Pairwise.filter _ List.pairwise_lt_range

end Index

end SigScan.Bytes
