/-
SigScan.Scan.Indexed — windows with the places of first literal bytes.

When many signatures are looked for, a window is gone through once for the places where
their first literal bytes stand, and each signature is compared there only. For a
signature whose first literal byte is not listed, every place of the window is looked at.

Main statement: an index changes nothing about the matches (`starts_eq`).
-/
import SigScan.Memory.Index
import SigScan.Scan.Window

namespace SigScan.Scan

/-- A window, and where the wanted byte values stand in it. -/
structure IndexedWindow where
  window : Window
  index : Bytes.Index window.bytes

namespace IndexedWindow

/-- The least number of bytes for which an index is made: a shorter window is searched as
quickly without. -/
def leastSize : Nat := 1024

/-- A window with an index of the wanted values, if any are wanted and it is long enough. -/
def ofWindow (wanted : Array Bool) (w : Window) : IndexedWindow where
  window := w
  index :=
    if wanted.isEmpty || decide (w.bytes.size < leastSize) then .nothing w.bytes
    else .ofWanted wanted w.bytes

/-- Whether the first literal byte at place `i` belongs to a match that starts at one of the
`count` places from `low` on. -/
def opensAt (s : Signature) (bytes : ByteArray) (low count i : Nat) : Bool :=
  decide (s.anchorIndex + low ≤ i) && decide (i < s.anchorIndex + low + count)
    && Signature.acceptsFrom s.words bytes (i - s.anchorIndex)

/-- Of the given places of the first literal byte, the starts of matches among the `count`
places from `low` on. -/
def startsAmong (s : Signature) (bytes : ByteArray) (low count : Nat) (places : Array Nat) :
    List Nat :=
  places.foldr (fun i starts =>
    if opensAt s bytes low count i then (i - s.anchorIndex) :: starts else starts) []

/-- The places of a window where a signature matches with its last token in the new
part. -/
def starts (s : Signature) (w : IndexedWindow) : List Nat :=
  match w.index.places? s.anchorByte with
  | none => Scan.starts s w.window
  | some places =>
    let low := w.window.seen + 1 - s.rawLen
    startsAmong s w.window.bytes low (w.window.bytes.size + 1 - s.rawLen - low) places

/-- The matches of a signature in a window of a region. -/
def found (s : Signature) (r : Region) (w : IndexedWindow) : List Match :=
  (starts s w).map fun p => ⟨w.window.origin + UInt64.ofNat p, r⟩

/-! ## What an index does not change -/

theorem startsAmong_eq (s : Signature) (bytes : ByteArray) (low count : Nat)
    (places : Array Nat) :
    startsAmong s bytes low count places =
      (places.toList.filter (opensAt s bytes low count)).map (· - s.anchorIndex) := by
  rw [startsAmong, ← Array.foldr_toList]
  induction places.toList with
  | nil => rfl
  | cons i is ih =>
    rw [List.foldr_cons, ih, List.filter_cons]
    split <;> rfl

theorem mem_startsAmong {s : Signature} {bytes : ByteArray} {low count : Nat}
    {places : Array Nat} (h : ∀ i, i ∈ places.toList ↔ Bytes.at? bytes i = some s.anchorByte)
    {p : Nat} :
    p ∈ startsAmong s bytes low count places ↔
      p ∈ (List.range' low count).filter (s.matchesAt bytes) := by
  simp only [startsAmong_eq, opensAt, List.mem_map, List.mem_filter, List.mem_range'_1,
    Signature.matchesAt, Bool.and_eq_true, decide_eq_true_eq, Bytes.holdsAt_eq_true_iff]
  constructor
  · rintro ⟨i, ⟨hi, ⟨hlow, hcount⟩, hw⟩, rfl⟩
    refine ⟨⟨by omega, by omega⟩, ?_, hw⟩
    rw [Nat.sub_add_cancel (by omega)]
    exact (h i).1 hi
  · rintro ⟨⟨hlow, hcount⟩, hb, hw⟩
    have hp : p + s.anchorIndex - s.anchorIndex = p := by omega
    exact ⟨p + s.anchorIndex, ⟨(h _).2 hb, ⟨by omega, by omega⟩, by rwa [hp]⟩, hp⟩

/-- Places that increase give starts that increase. -/
theorem pairwise_startsAmong {s : Signature} {bytes : ByteArray} {low count : Nat}
    {places : Array Nat} (h : places.toList.Pairwise (· < ·)) :
    (startsAmong s bytes low count places).Pairwise (· < ·) := by
  rw [startsAmong_eq, List.pairwise_map]
  refine List.Pairwise.imp_of_mem ?_ (h.filter _)
  intro i j hi _ hij
  have hle := (List.mem_filter.1 hi).2
  simp only [opensAt, Bool.and_eq_true, decide_eq_true_eq] at hle
  omega

/-- Two lists of numbers that increase and have the same members are the same. -/
theorem eq_of_pairwise_of_mem_iff {as bs : List Nat} (ha : as.Pairwise (· < ·))
    (hb : bs.Pairwise (· < ·)) (h : ∀ i, i ∈ as ↔ i ∈ bs) : as = bs := by
  have hna : as.Nodup := ha.imp Nat.ne_of_lt
  have hnb : bs.Nodup := hb.imp Nat.ne_of_lt
  refine List.Perm.eq_of_pairwise ?_ ha hb ((List.perm_ext_iff_of_nodup hna hnb).2 h)
  intro i j _ _ hij hji
  omega

/-- An index changes nothing about the places where a signature matches. -/
theorem starts_eq (s : Signature) (w : IndexedWindow) : starts s w = Scan.starts s w.window := by
  unfold starts
  split
  · rfl
  · next places h =>
    have hm := fun i => Bytes.Index.mem_places?_iff h (i := i)
    rw [Scan.starts, placesFrom_eq_filter]
    exact eq_of_pairwise_of_mem_iff (pairwise_startsAmong (Bytes.Index.pairwise_places? h))
      (List.Pairwise.filter _ (List.pairwise_lt_range' 1)) fun i => mem_startsAmong hm

theorem found_eq (s : Signature) (r : Region) (w : IndexedWindow) :
    found s r w = Scan.found s r w.window := by
  rw [found, starts_eq, Scan.found]

end IndexedWindow

end SigScan.Scan
