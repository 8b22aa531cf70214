/-
SigScan.Proofs.Scan.Group — a group of signatures against each signature alone.

A pass for a group carries a tail for the longest signature and looks windows up in an
index; a pass for one signature carries its own tail and searches directly. Both tally the
same matches, those of the chunks of the admitted regions (`tally_read_eq`), so each
signature of a group gets the result of its own pass (`result_read`). Nothing is asked of
the memory: reads may fail, and may come back with fewer bytes than were asked for.

What the tally of a list of matches says is read off the list (`result_ofMatches`).
-/
import SigScan.Scan.Pass
import SigScan.Proofs.Scan.Carry

namespace SigScan.Scan

/-! ## Tallies of lists of matches -/

namespace Tally

theorem foldl_merge_ofMatches {α : Type} (f : α → List Match) (l : List α) :
    (l.map fun a => ofMatches (f a)).foldl merge empty = ofMatches (l.flatMap f) := by
  suffices h : ∀ t : Tally,
      (l.map fun a => ofMatches (f a)).foldl merge t = merge t (ofMatches (l.flatMap f)) by
    rw [h, empty_merge]
  induction l with
  | nil => exact fun t => (merge_empty t).symm
  | cons a l ih =>
    intro t
    rw [List.map_cons, List.foldl_cons, ih, List.flatMap_cons, ofMatches_append, merge_assoc]

/-- A tally of recorded matches says none, the single one, or how many. -/
theorem result_ofMatches (found : List Match) :
    (ofMatches found).result =
      match found with
      | [] => .noMatch
      | [a] => .unique a
      | _ :: _ :: rest => .ambiguous (rest.length + 2) := by
  have hcount := count_ofMatches found
  have hfirst := isSome_first_ofMatches found
  match found with
  | [] => rfl
  | [a] => rfl
  | a :: b :: rest =>
    obtain ⟨first, hf⟩ := Option.isSome_iff_exists.1 (by simpa using hfirst)
    rw [List.length_cons, List.length_cons] at hcount
    simp [result, hcount, hf]

end Tally

/-! ## The matches of a pass -/

/-- The matches of a signature in the admitted regions, chunk by chunk. -/
def passMatches (m : Source) (config : Config) (regions : List Region) (s : Signature) :
    List Match :=
  (regions.filter config.admits).flatMap fun r =>
    (List.range (chunkCount config r)).flatMap (chunkMatches m config r s)

section

variable (m : Source) (config : Config) (regions : List Region)

theorem le_foldl_max (l : List Nat) (acc : Nat) : acc ≤ l.foldl max acc := by
  induction l generalizing acc with
  | nil => exact Nat.le_refl acc
  | cons n l ih => exact Nat.le_trans (Nat.le_max_left acc n) (ih (max acc n))

theorem le_foldl_max_of_mem {l : List Nat} {n : Nat} (h : n ∈ l) (acc : Nat) :
    n ≤ l.foldl max acc := by
  induction l generalizing acc with
  | nil => simp at h
  | cons a l ih =>
    rw [List.foldl_cons]
    rcases List.mem_cons.1 h with rfl | h
    · exact Nat.le_trans (Nat.le_max_right acc n) (le_foldl_max l _)
    · exact ih h _

/-- The overlap of a group is long enough for each of its signatures. -/
theorem rawLen_le_overlap {signatures : List Signature} {s : Signature} (h : s ∈ signatures) :
    s.rawLen ≤ Pass.overlap signatures + 1 := by
  have hmem : s.rawLen ∈ signatures.map Signature.rawLen := List.mem_map_of_mem h
  have := le_foldl_max_of_mem hmem 0
  rw [Pass.overlap]
  omega

/-- Whatever the group, a signature of it is tallied over its own matches. -/
theorem tally_read_eq {signatures : List Signature} {s : Signature} (h : s ∈ signatures) :
    (Pass.read m config regions signatures).tally s =
      Tally.ofMatches (passMatches m config regions s) := by
  rw [Pass.tally_read, passMatches, ← Tally.foldl_merge_ofMatches]
  simp only [flatMap_found_windows m config _ (rawLen_le_overlap h)]

theorem result_read_eq {signatures : List Signature} {s : Signature} (h : s ∈ signatures) :
    (Pass.read m config regions signatures).result s =
      (Tally.ofMatches (passMatches m config regions s)).result := by
  rw [Pass.result, tally_read_eq m config regions h]

/-- A signature of a group gets the result of its own pass. -/
theorem result_read {signatures : List Signature} {s : Signature} (h : s ∈ signatures) :
    (Pass.read m config regions signatures).result s = scanOne m config regions s := by
  rw [scanOne, result_read_eq m config regions h,
    result_read_eq m config regions (List.mem_singleton_self s)]

/-- Scanning a group gives at every place what scanning its signature alone gives. -/
theorem scan_agrees_scanOne (signatures : List Signature) (i : Nat) :
    (scan m config regions signatures)[i]? =
      signatures[i]?.map (scanOne m config regions) := by
  rw [scan, List.getElem?_map]
  cases hs : signatures[i]? with
  | none => rfl
  | some s =>
    rw [Option.map_some, Option.map_some, result_read m config regions (List.mem_of_getElem? hs)]

end

end SigScan.Scan
