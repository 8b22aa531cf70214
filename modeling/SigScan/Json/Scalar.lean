/-
SigScan.Json.Scalar — strings, natural numbers and truth values where they are expected.

A value of another type than the expected one is still read as far as its first part,
so that a text that goes wrong there is called malformed or cut short and not a text of
another shape. An array or an object is of another shape as soon as it opens.

Main statements: a written string and a written number read back as such
(`string_quote`, `natural_text`).
-/
import SigScan.Json.Number
import SigScan.Json.Quoted

namespace SigScan.Json

open SigScan.Text

/-- The fault of a reading that went well but was of no use, or else its own. -/
def misfit {α : Type} : Except Fault α → Fault
  | .error fault => fault
  | .ok _ => .mismatch

/-- Whether a number begins with a character. -/
def startsNumber (c : Char) : Bool :=
  c == '-' || (Decimal.value? c).isSome

/-- The fault of a value that opens with `c` where another type is expected. -/
def unexpected (c : Char) (rest : List Char) : Fault :=
  match c with
  | 'n' => misfit (spell ['u', 'l', 'l'] rest)
  | 't' => misfit (spell ['r', 'u', 'e'] rest)
  | 'f' => misfit (spell ['a', 'l', 's', 'e'] rest)
  | '"' => misfit (stringRest rest)
  | '[' => .mismatch
  | '\x7b' => .mismatch
  | c => if startsNumber c then misfit (number (c :: rest)) else .malformed

/-- A string. -/
def string : Reader String := fun cs =>
  match next cs with
  | .error fault => .error fault
  | .ok (c, rest) => if c = '"' then stringRest rest else .error (unexpected c rest)

/-- A natural number that does not exceed a bound. -/
def natural (bound : Nat) : Reader Nat := fun cs =>
  match next cs with
  | .error fault => .error fault
  | .ok (c, rest) =>
    if startsNumber c then
      match number (c :: rest) with
      | .error fault => .error fault
      | .ok (none, _) => .error .mismatch
      | .ok (some n, rest) => if n ≤ bound then .ok (n, rest) else .error .mismatch
    else .error (unexpected c rest)

/-- A truth value. -/
def bool : Reader Bool := fun cs =>
  match next cs with
  | .error fault => .error fault
  | .ok ('t', rest) =>
    match spell ['r', 'u', 'e'] rest with
    | .error fault => .error fault
    | .ok (_, rest) => .ok (true, rest)
  | .ok ('f', rest) =>
    match spell ['a', 'l', 's', 'e'] rest with
    | .error fault => .error fault
    | .ok (_, rest) => .ok (false, rest)
  | .ok (c, rest) => .error (unexpected c rest)

/-- A value that may be given as null. -/
def optional {α : Type} (read : Reader α) : Reader (Option α) := fun cs =>
  match next cs with
  | .ok ('n', rest) =>
    match spell ['u', 'l', 'l'] rest with
    | .error fault => .error fault
    | .ok (_, rest) => .ok (none, rest)
  | _ =>
    match read cs with
    | .error fault => .error fault
    | .ok (a, rest) => .ok (some a, rest)

/-! ## Reading what was written -/

/-- The written form of a truth value. -/
def boolText : Bool → List Char
  | true => ['t', 'r', 'u', 'e']
  | false => ['f', 'a', 'l', 's', 'e']

theorem string_quote (s : String) (rest : List Char) :
    string (quote s ++ rest) = .ok (s, rest) := by
  have hq : quote s ++ rest = '"' :: ((quote s).tail ++ rest) := rfl
  rw [hq, string, next_cons (by decide), ← stringRest_quote s rest]
  rfl

theorem bool_boolText (b : Bool) (rest : List Char) :
    bool (boolText b ++ rest) = .ok (b, rest) := by
  cases b <;> rfl

theorem text_eq_cons (n : Nat) :
    ∃ d ds, d < 10 ∧ Decimal.text n = Decimal.digit d :: ds := by
  cases h : Digits.ofNat 10 n with
  | nil => exact absurd h (Digits.ofNat_ne_nil 10 n)
  | cons d ds =>
    refine ⟨d, ds.map Decimal.digit, ?_, by rw [Decimal.text, h]; rfl⟩
    exact Digits.lt_of_mem_ofNat (by decide) (h ▸ List.mem_cons_self)

theorem startsNumber_digit {d : Nat} (h : d < 10) : startsNumber (Decimal.digit d) = true := by
  simp [startsNumber, Decimal.value?_digit h]

theorem isSpace_digit {d : Nat} (h : d < 10) : isSpace (Decimal.digit d) = false := by
  revert d; decide

theorem natural_text {bound n : Nat} (hb : n ≤ bound) (h : n < UInt64.size) {rest : List Char}
    (hr : endsNumber rest = true) : natural bound (Decimal.text n ++ rest) = .ok (n, rest) := by
  obtain ⟨d, ds, hd, ht⟩ := text_eq_cons n
  have hn := number_text h hr
  rw [ht, List.cons_append] at hn ⊢
  rw [natural, next_cons (isSpace_digit hd)]
  simp only [startsNumber_digit hd, if_true, hn, hb]

end SigScan.Json
