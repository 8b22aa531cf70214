/-
SigScan.Text.Hex — hexadecimal digits.

A digit is read in either case. Numbers are written with upper-case digits (bytes,
packed words, printed addresses) or lower-case ones (addresses in messages), either
in a fixed number of digits or in as few as possible. A number is read up to a limit, and
one plus sign may stand in front of its digits.

Main statements: each written digit reads back (`value?_upper`, `value?_lower`), digits of a
number below the limit are read in full (`numberFrom_eq`), and those of any other number are
refused (`numberFrom_eq_error`).
-/
import SigScan.Text.Digits

namespace SigScan.Text.Hex

/-! ## Digits -/

/-- The value of a hexadecimal digit in either case. -/
def value? (c : Char) : Option Nat :=
  let n := c.toNat
  if 48 ≤ n && n ≤ 57 then some (n - 48)
  else if 65 ≤ n && n ≤ 70 then some (n - 55)
  else if 97 ≤ n && n ≤ 102 then some (n - 87)
  else none

/-- The upper-case digit of a value below sixteen. -/
def upper (d : Nat) : Char :=
  Char.ofNat (if d < 10 then 48 + d else 55 + d)

/-- The lower-case digit of a value below sixteen. -/
def lower (d : Nat) : Char :=
  Char.ofNat (if d < 10 then 48 + d else 87 + d)

theorem value?_upper {d : Nat} (h : d < 16) : value? (upper d) = some d := by
  revert d; decide

theorem value?_lower {d : Nat} (h : d < 16) : value? (lower d) = some d := by
  revert d; decide

theorem value?_eq_some_iff {c : Char} {d : Nat} :
    value? c = some d ↔
      (48 ≤ c.toNat ∧ c.toNat ≤ 57 ∧ d = c.toNat - 48) ∨
      (65 ≤ c.toNat ∧ c.toNat ≤ 70 ∧ d = c.toNat - 55) ∨
      (97 ≤ c.toNat ∧ c.toNat ≤ 102 ∧ d = c.toNat - 87) := by
  simp only [value?, Bool.and_eq_true, decide_eq_true_eq]
  split
  · simp; omega
  split
  · simp; omega
  split
  · simp; omega
  · simp; omega

theorem lt_of_value?_eq_some {c : Char} {d : Nat} (h : value? c = some d) : d < 16 := by
  rw [value?_eq_some_iff] at h
  omega

/-! ## Digits as bytes -/

/-- Whether a byte is the code of a digit. -/
def isDigitByte (b : UInt8) : Bool :=
  (value? (Char.ofNat b.toNat)).isSome

theorem isDigitByte_eq_false {b : UInt8} (h : 128 ≤ b.toNat) : isDigitByte b = false := by
  have hlt : b.toNat < 256 := b.toNat_lt
  have hvalid : b.toNat.isValidChar := .inl (by omega)
  have hb : (Char.ofNat b.toNat).toNat = b.toNat := by
    rw [Char.ofNat, dif_pos hvalid]
    rfl
  rw [isDigitByte, Option.isSome_eq_false_iff, Option.isNone_iff_eq_none,
    Option.eq_none_iff_forall_ne_some]
  intro d hd
  rw [value?_eq_some_iff, hb] at hd
  omega

theorem utf8EncodeChar_of_le {c : Char} (h : c.toNat ≤ 127) :
    String.utf8EncodeChar c = [UInt8.ofNat c.toNat] := by
  simp [String.utf8EncodeChar, h]

/-- A digit is one byte in UTF-8. -/
theorem length_utf8EncodeChar {c : Char} (h : (value? c).isSome) :
    (String.utf8EncodeChar c).length = 1 := by
  obtain ⟨d, hd⟩ := Option.isSome_iff_exists.1 h
  rw [value?_eq_some_iff] at hd
  rw [utf8EncodeChar_of_le (by omega), List.length_singleton]

/-- Of the bytes that stand for a character in UTF-8 all are digits exactly if it is a digit
itself: more bytes than one begin with a byte that is no digit. -/
theorem all_utf8EncodeChar (c : Char) :
    (String.utf8EncodeChar c).all isDigitByte = (value? c).isSome := by
  by_cases h : c.toNat ≤ 127
  · have hb : (UInt8.ofNat c.toNat).toNat = c.toNat := by
      rw [UInt8.toNat_ofNat']
      omega
    simp [utf8EncodeChar_of_le h, isDigitByte, hb]
  · have hnone : value? c = none := by
      rw [Option.eq_none_iff_forall_ne_some]
      intro d hd
      rw [value?_eq_some_iff] at hd
      omega
    have hfirst : ∀ n bs, 192 ≤ n → n < 256 → (UInt8.ofNat n :: bs).all isDigitByte = false := by
      intro n bs hn hlt
      have hle : 128 ≤ (UInt8.ofNat n).toNat := by
        rw [UInt8.toNat_ofNat']
        omega
      rw [List.all_cons, isDigitByte_eq_false hle, Bool.false_and]
    simp only [String.utf8EncodeChar, hnone, Option.isSome_none]
    split
    · contradiction
    split
    · exact hfirst _ _ (by omega) (by omega)
    split
    · exact hfirst _ _ (by omega) (by omega)
    · exact hfirst _ _ (by omega) (by omega)

/-! ## Written forms -/

/-- A byte as two upper-case digits. -/
def byte (b : UInt8) : List Char :=
  (Digits.fixed 16 2 b.toNat).map upper

/-- A word as sixteen upper-case digits. -/
def word (w : UInt64) : String :=
  String.ofList ((Digits.fixed 16 16 w.toNat).map upper)

/-- A number in as few upper-case digits as possible. -/
def shortUpper (n : Nat) : String :=
  String.ofList ((Digits.ofNat 16 n).map upper)

/-- A number in as few lower-case digits as possible. -/
def shortLower (n : Nat) : String :=
  String.ofList ((Digits.ofNat 16 n).map lower)

/-- An address as messages give it: the mark `0x` and lower-case digits. -/
def address (a : UInt64) : String :=
  "0x" ++ shortLower a.toNat

/-! ## Reading numbers -/

/-- Why a text is no number below a limit. -/
inductive Fault where
  /-- There is nothing to read. -/
  | empty
  /-- A character is no digit, or there is only a sign. -/
  | invalidDigit
  /-- The number reaches the limit. -/
  | tooLarge
deriving DecidableEq, Repr

/-- The fault as messages give it. -/
def Fault.text : Fault → String
  | .empty => "cannot parse integer from empty string"
  | .invalidDigit => "invalid digit found in string"
  | .tooLarge => "number too large to fit in target type"

/-- The number below a limit that the digits stand for behind those of `n`. What goes wrong
first from left to right decides. -/
def numberFrom (limit n : Nat) : List Char → Except Fault Nat
  | [] => .ok n
  | c :: cs =>
    match value? c with
    | none => .error .invalidDigit
    | some d => if 16 * n + d < limit then numberFrom limit (16 * n + d) cs else .error .tooLarge

/-- The number below a limit that a text stands for; a plus sign needs a digit. -/
def number (limit : Nat) : List Char → Except Fault Nat
  | [] => .error .empty
  | ['+'] => .error .invalidDigit
  | '+' :: cs => numberFrom limit 0 cs
  | cs => numberFrom limit 0 cs

theorem number_of_ne {limit : Nat} {c : Char} (h : c ≠ '+') (cs : List Char) :
    number limit (c :: cs) = numberFrom limit 0 (c :: cs) := by
  rw [number]
  · intro hc
    simp at hc
  · intro hc
    exact h (List.cons.inj hc).1
  · intro rest hc
    exact h (List.cons.inj hc).1

/-- Digits of a number below the limit are read in full. -/
theorem numberFrom_eq {limit : Nat} (n : Nat) {cs : List Char} {ds : List Nat}
    (h : cs.map value? = ds.map some) (hb : ds.foldl (fun n d => 16 * n + d) n < limit) :
    numberFrom limit n cs = .ok (ds.foldl (fun n d => 16 * n + d) n) := by
  induction cs generalizing n ds with
  | nil =>
    obtain rfl : ds = [] := by simpa using h.symm
    rfl
  | cons c cs ih =>
    cases ds with
    | nil => simp at h
    | cons d ds =>
      obtain ⟨hc, hcs⟩ : value? c = some d ∧ cs.map value? = ds.map some := by simpa using h
      have hd : 16 * n + d < limit :=
        Nat.lt_of_le_of_lt (Digits.le_foldl (by decide) (16 * n + d) ds) hb
      simp only [numberFrom, hc, hd, if_true]
      exact ih _ hcs hb

/-- Digits of a number that reaches the limit are refused for that. -/
theorem numberFrom_eq_error {limit n : Nat} {cs : List Char} {ds : List Nat}
    (h : cs.map value? = ds.map some) (hn : n < limit)
    (hb : limit ≤ ds.foldl (fun n d => 16 * n + d) n) :
    numberFrom limit n cs = .error .tooLarge := by
  induction cs generalizing n ds with
  | nil =>
    obtain rfl : ds = [] := by simpa using h.symm
    exact absurd hn (Nat.not_lt.2 hb)
  | cons c cs ih =>
    cases ds with
    | nil => simp at h
    | cons d ds =>
      obtain ⟨hc, hcs⟩ : value? c = some d ∧ cs.map value? = ds.map some := by simpa using h
      simp only [numberFrom, hc]
      split
      · next hd => exact ih hcs hd hb
      · rfl

end SigScan.Text.Hex
