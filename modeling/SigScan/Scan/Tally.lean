/-
SigScan.Scan.Tally — counting matches.

A match is a place where every literal byte of a signature was found. A tally counts
the matches seen and keeps the one with the lowest address, the earlier one where two
agree. Tallies of parts of a module are merged, and the whole tally decides the result.

Main statements: merging is associative and an empty tally changes nothing
(`merge_assoc`, `empty_merge`, `merge_empty`), and a tally of recorded matches holds one
exactly if it counts any (`isSome_first_ofMatches`).
-/
import SigScan.Memory.Region

namespace SigScan.Scan

/-- A place where a signature was found, and the region it was found in. -/
structure Match where
  address : UInt64
  region : Region
deriving DecidableEq, Repr

/-- What a scan finds out about a signature. -/
inductive Result where
  | noMatch
  | unique (found : Match)
  | ambiguous (count : Nat)
deriving DecidableEq, Repr

/-- The number of matches and the one with the lowest address. -/
structure Tally where
  count : Nat
  first : Option Match
deriving DecidableEq, Repr

namespace Tally

/-- No matches. -/
def empty : Tally := ⟨0, none⟩

/-- The lower of two matches, the left one where their addresses agree. -/
def lower : Option Match → Option Match → Option Match
  | none, b => b
  | some a, none => some a
  | some a, some b => if b.address < a.address then some b else some a

/-- Counts one more match. -/
def record (t : Tally) (found : Match) : Tally :=
  ⟨t.count + 1, lower t.first (some found)⟩

/-- The tally of two parts, the left part first. -/
def merge (a b : Tally) : Tally :=
  ⟨a.count + b.count, lower a.first b.first⟩

/-- The tally of a list of matches. -/
def ofMatches (found : List Match) : Tally :=
  found.foldl record empty

/-- What a whole tally says. -/
def result (t : Tally) : Result :=
  match t.count, t.first with
  | 0, _ => .noMatch
  | _, none => .noMatch
  | 1, some found => .unique found
  | n, some _ => .ambiguous n

/-! ## Merging -/

theorem lower_none (a : Option Match) : lower a none = a := by
  cases a <;> rfl

theorem lower_assoc (a b c : Option Match) : lower (lower a b) c = lower a (lower b c) := by
  rcases a with - | a
  · rfl
  rcases b with - | b
  · rfl
  rcases c with - | c
  · rw [lower_none, lower_none]
  by_cases hba : b.address < a.address <;> by_cases hcb : c.address < b.address
  · have hca : c.address < a.address := UInt64.lt_trans hcb hba
    simp [lower, hba, hcb, hca]
  · simp [lower, hba, hcb]
  · by_cases hca : c.address < a.address <;> simp [lower, hba, hcb, hca]
  · have hca : ¬ c.address < a.address := by
      simp only [UInt64.lt_iff_toNat_lt] at *
      omega
    simp [lower, hba, hcb, hca]

theorem empty_merge (t : Tally) : merge empty t = t := by
  simp [merge, empty, lower]

theorem merge_empty (t : Tally) : merge t empty = t := by
  simp [merge, empty, lower_none]

theorem merge_assoc (a b c : Tally) : merge (merge a b) c = merge a (merge b c) := by
  simp [merge, lower_assoc, Nat.add_assoc]

theorem record_eq_merge (t : Tally) (found : Match) : t.record found = merge t ⟨1, some found⟩ :=
  rfl

/-! ## Recorded matches -/

theorem foldl_record (t : Tally) (found : List Match) :
    found.foldl record t = merge t (ofMatches found) := by
  induction found generalizing t with
  | nil => exact (merge_empty t).symm
  | cons m ms ih =>
    have hm : (m :: ms).foldl record t = ms.foldl record (t.record m) := rfl
    have he : ofMatches (m :: ms) = ms.foldl record (empty.record m) := rfl
    rw [hm, he, ih, ih, record_eq_merge, record_eq_merge, empty_merge, merge_assoc]

/-- The matches of two parts are counted part by part. -/
theorem ofMatches_append (a b : List Match) :
    ofMatches (a ++ b) = merge (ofMatches a) (ofMatches b) := by
  rw [ofMatches, List.foldl_append, foldl_record]
  rfl

theorem ofMatches_cons (m : Match) (ms : List Match) :
    ofMatches (m :: ms) = merge ⟨1, some m⟩ (ofMatches ms) := by
  have he : ofMatches (m :: ms) = ms.foldl record (empty.record m) := rfl
  rw [he, foldl_record, record_eq_merge, empty_merge]

theorem count_ofMatches (found : List Match) : (ofMatches found).count = found.length := by
  induction found with
  | nil => rfl
  | cons m ms ih => rw [ofMatches_cons, merge, ih, List.length_cons, Nat.add_comm]

/-- A tally of recorded matches keeps one of them exactly if it counts any. -/
theorem isSome_first_ofMatches (found : List Match) :
    (ofMatches found).first.isSome = !found.isEmpty := by
  cases found with
  | nil => rfl
  | cons m ms =>
    rw [ofMatches_cons, merge]
    cases (ofMatches ms).first with
    | none => rfl
    | some b => simp only [lower]; split <;> rfl

end Tally

end SigScan.Scan
