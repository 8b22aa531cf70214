/-
SigScan.Proofs.Text.Digits — texts of digits, and the numbers that they stand for.

Hexadecimal digits are given apart from the reader, in either case (`Hex.IsDigit`). A text of
digits is read as its number if that is below the limit, and refused as too large if not
(`Hex.number_of_digits`); nothing else is read as a number but such a text with at most one
plus sign in front (`Hex.exists_digits_of_number`), which does not count (`Hex.number_sign`). A
number that is put into a line is written with its decimal digits (`Decimal.toList_toString`).
-/
import Mathlib.Data.List.Forall2
import SigScan.Text.Blank
import SigScan.Text.Decimal
import SigScan.Text.Hex

namespace SigScan.Text

namespace Hex

/-! ## Hexadecimal digits -/

/-- `c` is the digit of a value below sixteen, in either case. -/
def IsDigit (c : Char) (d : Nat) : Prop :=
  d < 16 ∧ (c = upper d ∨ c = lower d)

/-- What has a value is the digit of that value. -/
theorem value?_eq_some_iff_isDigit {c : Char} {d : Nat} : value? c = some d ↔ IsDigit c d := by
  constructor
  · intro h
    refine ⟨lt_of_value?_eq_some h, ?_⟩
    have hc : Char.ofNat c.toNat = c := Char.ofNat_toNat c
    rcases value?_eq_some_iff.1 h with
      ⟨hlow, hhigh, rfl⟩ | ⟨hlow, hhigh, rfl⟩ | ⟨hlow, hhigh, rfl⟩
    · left
      rw [upper, if_pos (by omega), show 48 + (c.toNat - 48) = c.toNat by omega, hc]
    · left
      rw [upper, if_neg (by omega), show 55 + (c.toNat - 55) = c.toNat by omega, hc]
    · right
      rw [lower, if_neg (by omega), show 87 + (c.toNat - 87) = c.toNat by omega, hc]
  · rintro ⟨hd, rfl | rfl⟩
    · exact value?_upper hd
    · exact value?_lower hd

/-- No digit is blank, a sign, an underscore or the second character of a mark. -/
theorem IsDigit.plain {c : Char} {d : Nat} (h : IsDigit c d) :
    isBlank c = false ∧ c ≠ '+' ∧ c ≠ '_' ∧ c ≠ 'x' ∧ c ≠ 'X' := by
  have hall : ∀ d, d < 16 →
      (isBlank (upper d) = false ∧ upper d ≠ '+' ∧ upper d ≠ '_' ∧ upper d ≠ 'x' ∧ upper d ≠ 'X')
      ∧ isBlank (lower d) = false ∧ lower d ≠ '+' ∧ lower d ≠ '_' ∧ lower d ≠ 'x'
        ∧ lower d ≠ 'X' := by
    decide
  obtain ⟨hd, rfl | rfl⟩ := h
  · exact (hall d hd).1
  · exact (hall d hd).2

theorem map_value?_of_digits {cs : List Char} {ds : List Nat} (h : List.Forall₂ IsDigit cs ds) :
    cs.map value? = ds.map some := by
  induction h with
  | nil => rfl
  | cons hd _ ih => rw [List.map_cons, List.map_cons, value?_eq_some_iff_isDigit.2 hd, ih]

theorem exists_isDigit_of_mem {cs : List Char} {ds : List Nat} (h : List.Forall₂ IsDigit cs ds)
    {c : Char} (hc : c ∈ cs) : ∃ d, IsDigit c d := by
  induction h with
  | nil => cases hc
  | cons hd _ ih =>
    rcases List.mem_cons.1 hc with rfl | hc
    · exact ⟨_, hd⟩
    · exact ih hc

/-- Values below sixteen are written with their digits. -/
theorem forall₂_isDigit_upper {ds : List Nat} (h : ∀ d ∈ ds, d < 16) :
    List.Forall₂ IsDigit (ds.map upper) ds := by
  induction ds with
  | nil => exact .nil
  | cons d ds ih =>
    have hd : IsDigit (upper d) d := ⟨h d List.mem_cons_self, .inl rfl⟩
    exact .cons hd (ih fun e he => h e (List.mem_cons_of_mem d he))

/-! ## Hexadecimal numbers -/

/-- Digits are read as the number that they stand for if it is below the limit, and refused as
too large if not. -/
theorem number_of_digits {limit : Nat} (hlimit : 0 < limit) {cs : List Char} {ds : List Nat}
    (hne : cs ≠ []) (h : List.Forall₂ IsDigit cs ds) :
    number limit cs =
      if Digits.value 16 ds < limit then .ok (Digits.value 16 ds) else .error .tooLarge := by
  have hvalues := map_value?_of_digits h
  cases h with
  | nil => exact absurd rfl hne
  | @cons c d cs ds hc _ =>
    rw [number_of_ne hc.plain.2.1]
    split
    · next hlt => exact numberFrom_eq 0 hvalues hlt
    · next hle => exact numberFrom_eq_error hvalues hlimit (Nat.not_lt.1 hle)

/-- The sixteen digits of a word are read as the word. -/
theorem number_word (w : UInt64) : number UInt64.size (word w).toList = .ok w.toNat := by
  have hdigits : List.Forall₂ IsDigit ((Digits.fixed 16 16 w.toNat).map upper)
      (Digits.fixed 16 16 w.toNat) :=
    forall₂_isDigit_upper fun _ hd => Digits.lt_of_mem_fixed (by decide) hd
  have hne : (Digits.fixed 16 16 w.toNat).map upper ≠ [] := by
    apply List.ne_nil_of_length_eq_add_one
    rw [List.length_map, Digits.length_fixed]
  have hvalue : Digits.value 16 (Digits.fixed 16 16 w.toNat) = w.toNat := by
    rw [Digits.value_fixed]
    exact Nat.mod_eq_of_lt w.toNat_lt
  rw [word, String.toList_ofList, number_of_digits (by decide) hne hdigits, hvalue,
    if_pos w.toNat_lt_size]

theorem length_word (w : UInt64) : (word w).toList.length = 16 := by
  rw [word, String.toList_ofList, List.length_map, Digits.length_fixed]

/-- What is read digit by digit has only digits. -/
theorem exists_digits_of_numberFrom {limit n m : Nat} {cs : List Char}
    (h : numberFrom limit n cs = .ok m) : ∃ ds, List.Forall₂ IsDigit cs ds := by
  induction cs generalizing n with
  | nil => exact ⟨[], .nil⟩
  | cons c cs ih =>
    rw [numberFrom] at h
    cases hc : value? c with
    | none =>
      rw [hc] at h
      contradiction
    | some d =>
      simp only [hc] at h
      split at h
      · obtain ⟨ds, hds⟩ := ih h
        exact ⟨d :: ds, .cons (value?_eq_some_iff_isDigit.1 hc) hds⟩
      · contradiction

/-- What is read as a number has at least one digit, and nothing else but a plus sign in front
of the digits. -/
theorem exists_digits_of_number {limit m : Nat} {cs : List Char} (h : number limit cs = .ok m) :
    ∃ digits ds, (cs = digits ∨ cs = '+' :: digits) ∧ digits ≠ []
      ∧ List.Forall₂ IsDigit digits ds := by
  cases cs with
  | nil => contradiction
  | cons c cs =>
    by_cases hc : c = '+'
    · subst hc
      cases cs with
      | nil => contradiction
      | cons d cs =>
        obtain ⟨ds, hds⟩ := exists_digits_of_numberFrom (n := 0) h
        exact ⟨d :: cs, ds, .inr rfl, by simp, hds⟩
    · rw [number_of_ne hc] at h
      obtain ⟨ds, hds⟩ := exists_digits_of_numberFrom h
      exact ⟨c :: cs, ds, .inl rfl, by simp, hds⟩

/-- A plus sign in front of digits does not count. -/
theorem number_sign {limit : Nat} {cs : List Char} {ds : List Nat} (hne : cs ≠ [])
    (h : List.Forall₂ IsDigit cs ds) : number limit ('+' :: cs) = number limit cs := by
  cases h with
  | nil => exact absurd rfl hne
  | cons hc _ =>
    rw [number_of_ne hc.plain.2.1]
    rfl

end Hex

/-! ## Decimal numbers in lines -/

namespace Decimal

theorem toDigits_eq_text (n : Nat) : Nat.toDigits 10 n = text n := by
  have hdigit : ∀ d < 10, Nat.digitChar d = digit d := by decide
  rw [text]
  fun_induction Digits.ofNat 10 n with
  | case1 n h =>
    have hn : n < 10 := by omega
    rw [Nat.toDigits_of_lt_base hn, hdigit n hn, List.map_singleton]
  | case2 n h _ ih =>
    rw [Nat.toDigits_of_base_le (by decide) (by omega), ih, hdigit _ (Nat.mod_lt n (by decide)),
      List.map_append, List.map_singleton]

/-- A number in a line is written in as few digits as possible. -/
theorem toList_toString (n : Nat) : (toString n).toList = text n := by
  rw [← toDigits_eq_text]
  exact Nat.toList_repr

end Decimal

end SigScan.Text
