/-
SigScan.Text.Decimal — decimal digits.

Numbers in files and on the command line are runs of the ten ASCII digits; other
characters that Unicode calls digits are not. A run is cut off the front of a text
together with what follows it.

Main statements: a run holds nothing but digits and what is left starts with none
(`run_append`), and a written number is the run that reads back (`run_text`).
-/
import SigScan.Text.Digits

namespace SigScan.Text.Decimal

/-- The value of a decimal digit. -/
def value? (c : Char) : Option Nat :=
  let n := c.toNat
  if 48 ≤ n && n ≤ 57 then some (n - 48) else none

/-- The digit of a value below ten. -/
def digit (d : Nat) : Char :=
  Char.ofNat (48 + d)

theorem value?_digit {d : Nat} (h : d < 10) : value? (digit d) = some d := by
  revert d; decide

/-- Whether a character is a decimal digit. -/
def isDigit (c : Char) : Bool :=
  (value? c).isSome

/-- The digits at the front of a text, and what is left behind them. -/
def run (cs : List Char) : List Nat × List Char :=
  ((cs.takeWhile isDigit).filterMap value?, cs.dropWhile isDigit)

/-- At most `max` digits at the front of a text, and what is left behind them. -/
def upTo : Nat → List Char → List Nat × List Char
  | 0, cs => ([], cs)
  | _ + 1, [] => ([], [])
  | max + 1, c :: cs =>
    match value? c with
    | none => ([], c :: cs)
    | some d =>
      let (ds, rest) := upTo max cs
      (d :: ds, rest)

/-- A number in as few digits as possible. -/
def text (n : Nat) : List Char :=
  (Digits.ofNat 10 n).map digit

/-- The last `width` digits of a number. -/
def fixed (width n : Nat) : List Char :=
  (Digits.fixed 10 width n).map digit

/-- Whether a text goes on with a digit. -/
def startsWithDigit : List Char → Bool
  | [] => false
  | c :: _ => isDigit c

/-- Written digits have their values. -/
theorem filterMap_digit {ds : List Nat} (hd : ∀ d ∈ ds, d < 10) :
    (ds.map digit).filterMap value? = ds := by
  induction ds with
  | nil => rfl
  | cons d ds ih =>
    rw [List.map_cons, List.filterMap_cons, value?_digit (hd d (by simp)),
      ih fun e he => hd e (by simp [he])]

/-- Digits in front of a text that does not go on with one are its run. -/
theorem run_append {ds : List Nat} (hd : ∀ d ∈ ds, d < 10) {rest : List Char}
    (hr : startsWithDigit rest = false) : run (ds.map digit ++ rest) = (ds, rest) := by
  have hm : ∀ c ∈ ds.map digit, isDigit c = true := by
    intro c hc
    obtain ⟨d, hm, rfl⟩ := List.mem_map.1 hc
    simp [isDigit, value?_digit (hd d hm)]
  have ht : rest.takeWhile isDigit = [] ∧ rest.dropWhile isDigit = rest := by
    cases rest with
    | nil => exact ⟨rfl, rfl⟩
    | cons c cs =>
      have hc : isDigit c = false := hr
      simp [hc]
  rw [run, List.takeWhile_append_of_pos hm, List.dropWhile_append_of_pos hm, ht.1, ht.2,
    List.append_nil, filterMap_digit hd]

/-- A written number reads back. -/
theorem run_text (n : Nat) {rest : List Char} (hr : startsWithDigit rest = false) :
    run (text n ++ rest) = (Digits.ofNat 10 n, rest) :=
  run_append (fun _ hd => Digits.lt_of_mem_ofNat (by decide) hd) hr

/-- As many digits as are asked for are taken, whatever follows them. -/
theorem upTo_append {ds : List Nat} (hd : ∀ d ∈ ds, d < 10) (rest : List Char) :
    upTo ds.length (ds.map digit ++ rest) = (ds, rest) := by
  induction ds with
  | nil => cases rest <;> rfl
  | cons d ds ih =>
    rw [List.length_cons, List.map_cons, List.cons_append, upTo, value?_digit (hd d (by simp)),
      ih fun e he => hd e (by simp [he])]

theorem fixed_succ_eq_cons (width n : Nat) :
    ∃ d ds, d < 10 ∧ fixed (width + 1) n = digit d :: ds := by
  cases h : Digits.fixed 10 (width + 1) n with
  | nil =>
    have hlen := Digits.length_fixed 10 (width + 1) n
    rw [h] at hlen
    exact absurd hlen (by simp)
  | cons d ds =>
    have hd : d < 10 := Digits.lt_of_mem_fixed (by decide) (h ▸ List.mem_cons_self)
    exact ⟨d, ds.map digit, hd, by rw [fixed, h, List.map_cons]⟩

theorem upTo_fixed (width n : Nat) (rest : List Char) :
    upTo width (fixed width n ++ rest) = (Digits.fixed 10 width n, rest) := by
  have hd : ∀ d ∈ Digits.fixed 10 width n, d < 10 := fun _ hm =>
    Digits.lt_of_mem_fixed (by decide) hm
  have h := upTo_append hd rest
  rwa [Digits.length_fixed] at h

theorem run_fixed (width n : Nat) {rest : List Char} (hr : startsWithDigit rest = false) :
    run (fixed width n ++ rest) = (Digits.fixed 10 width n, rest) :=
  run_append (fun _ hd => Digits.lt_of_mem_fixed (by decide) hd) hr

end SigScan.Text.Decimal
