/-
SigScan.Proofs.Command.HexAddress — every spelling of an address is read as its number.

A number may be spelled with one mark or none, any number of zeros in front, digits in either
case, underscores anywhere among them, and blanks around all of it (`Spelling`). No digit and
no underscore is blank or ends a mark (`Body.plain`), so trimming and taking marks off leave
exactly the digits (`unmarked_marks_append`, `Spelling.digitsOf_text`). These are read in full
if the number fits 64 bits, and refused as too large if it does not; the form in which
addresses are printed is a spelling (`spelling_read`).
-/
import SigScan.Command.HexAddress
import SigScan.Command.Scan
import SigScan.Proofs.Text.Digits
import SigScan.Proofs.Text.Trim

namespace SigScan

open SigScan.Text

namespace Command.HexAddress

/-! ## Marks -/

theorem dropMarks_mark (a b : Char) (cs : List Char) :
    dropMarks a b (a :: b :: cs) = dropMarks a b cs := by
  rw [dropMarks, if_pos ⟨rfl, rfl⟩]

/-- Without its second character there is no mark to take off. -/
theorem dropMarks_of_not_mem (a : Char) {b : Char} {cs : List Char} (h : b ∉ cs) :
    dropMarks a b cs = cs := by
  match cs with
  | [] => rfl
  | [c] => rfl
  | c :: d :: cs =>
    have hd : ¬ (c = a ∧ d = b) := by
      rintro ⟨-, rfl⟩
      exact h (by simp)
    rw [dropMarks, if_neg hd]

/-- Small marks and capital ones behind them. -/
def marks (small capital : Nat) : List Char :=
  (List.replicate small ['0', 'x']).flatten ++ (List.replicate capital ['0', 'X']).flatten

theorem dropMarks_replicate_append (a b : Char) (n : Nat) (cs : List Char) :
    dropMarks a b ((List.replicate n [a, b]).flatten ++ cs) = dropMarks a b cs := by
  induction n with
  | zero => rfl
  | succ n ih =>
    rw [List.replicate_succ, List.flatten_cons, List.append_assoc]
    exact (dropMarks_mark a b _).trans ih

/-- What is left of a text when its marks are taken off. -/
def unmarked (cs : List Char) : List Char :=
  dropMarks '0' 'X' (dropMarks '0' 'x' cs)

theorem digitsOf_eq (text : String) :
    digitsOf text = (unmarked (trim text.toList)).filter (· != '_') :=
  rfl

/-- Of marks with no further one behind them nothing is left. -/
theorem unmarked_marks_append (small capital : Nat) {cs : List Char} (hx : 'x' ∉ cs)
    (hX : 'X' ∉ cs) : unmarked (marks small capital ++ cs) = cs := by
  have hcapital : 'x' ∉ (List.replicate capital ['0', 'X']).flatten ++ cs := by
    simp [hx]
  rw [unmarked, marks, List.append_assoc, dropMarks_replicate_append,
    dropMarks_of_not_mem '0' hcapital, dropMarks_replicate_append, dropMarks_of_not_mem '0' hX]

/-! ## Bodies -/

/-- Digits, which count, and underscores, which do not. -/
inductive Body : List Char → List Nat → Prop where
  | nil : Body [] []
  | underscore {cs : List Char} {ds : List Nat} (h : Body cs ds) : Body ('_' :: cs) ds
  | digit {c : Char} {cs : List Char} {d : Nat} {ds : List Nat} (hc : Hex.IsDigit c d)
      (h : Body cs ds) : Body (c :: cs) (d :: ds)

/-- A body has digits only once its underscores are left out. -/
theorem body_iff {cs : List Char} {ds : List Nat} :
    Body cs ds ↔ List.Forall₂ Hex.IsDigit (cs.filter (· != '_')) ds := by
  constructor
  · intro h
    induction h with
    | nil => exact .nil
    | underscore h ih => exact ih
    | @digit c cs d ds hc h ih =>
      have hkeep : (c != '_') = true := bne_iff_ne.2 hc.plain.2.2.1
      rw [List.filter_cons, if_pos hkeep]
      exact .cons hc ih
  · intro h
    induction cs generalizing ds with
    | nil =>
      cases h
      exact .nil
    | cons c cs ih =>
      by_cases hc : c = '_'
      · subst hc
        exact .underscore (ih h)
      · have hkeep : (c != '_') = true := bne_iff_ne.2 hc
        rw [List.filter_cons, if_pos hkeep] at h
        cases h with
        | cons hd h => exact .digit hd (ih h)

/-- No character of a body is blank, a sign or the second character of a mark. -/
theorem Body.plain {cs : List Char} {ds : List Nat} (h : Body cs ds) {c : Char} (hc : c ∈ cs) :
    isBlank c = false ∧ c ≠ '+' ∧ c ≠ 'x' ∧ c ≠ 'X' := by
  induction h with
  | nil => cases hc
  | underscore h ih =>
    rcases List.mem_cons.1 hc with rfl | hc
    · decide
    · exact ih hc
  | digit hd h ih =>
    rcases List.mem_cons.1 hc with rfl | hc
    · obtain ⟨hblank, hsign, -, hx, hX⟩ := hd.plain
      exact ⟨hblank, hsign, hx, hX⟩
    · exact ih hc

theorem Body.not_mem {cs : List Char} {ds : List Nat} (h : Body cs ds) :
    '+' ∉ cs ∧ 'x' ∉ cs ∧ 'X' ∉ cs :=
  ⟨fun hc => (h.plain hc).2.1 rfl, fun hc => (h.plain hc).2.2.1 rfl,
    fun hc => (h.plain hc).2.2.2 rfl⟩

theorem Body.digits_ne_nil {cs : List Char} {ds : List Nat} (h : Body cs ds) (hne : ds ≠ []) :
    cs.filter (· != '_') ≠ [] := by
  intro hnil
  have hdigits := body_iff.1 h
  rw [hnil, List.forall₂_nil_left_iff] at hdigits
  exact hne hdigits

/-! ## Spellings -/

/-- A way to write a number as an address. -/
structure Spelling (a : Nat) where
  /-- Blanks in front. -/
  before : List Char
  /-- The mark, if there is one. -/
  mark : List Char
  /-- Number of zeros in front of the digits of the number. -/
  zeros : Nat
  /-- Digits and underscores. -/
  body : List Char
  /-- Blanks behind. -/
  after : List Char
  blank_before : ∀ c ∈ before, isBlank c = true
  blank_after : ∀ c ∈ after, isBlank c = true
  mark_cases : mark = [] ∨ mark = ['0', 'x'] ∨ mark = ['0', 'X']
  /-- Underscores apart, the body has the digits of the number, each in either case. -/
  digits : List.Forall₂ Hex.IsDigit (body.filter (· != '_'))
    (List.replicate zeros 0 ++ Digits.ofNat 16 a)

namespace Spelling

variable {a : Nat}

/-- The text that is written. -/
def text (w : Spelling a) : String :=
  String.ofList (w.before ++ (w.mark ++ w.body) ++ w.after)

theorem body_spec (w : Spelling a) :
    Body w.body (List.replicate w.zeros 0 ++ Digits.ofNat 16 a) :=
  body_iff.2 w.digits

theorem digits_ne_nil (w : Spelling a) : w.body.filter (· != '_') ≠ [] :=
  w.body_spec.digits_ne_nil (by simp [Digits.ofNat_ne_nil])

theorem body_ne_nil (w : Spelling a) : w.body ≠ [] := by
  intro hnil
  exact w.digits_ne_nil (by rw [hnil]; rfl)

/-- Between the blanks around it a spelling has none. -/
theorem trim_text (w : Spelling a) : trim w.text.toList = w.mark ++ w.body := by
  have hmark : w.mark.any isBlank = false := by
    rcases w.mark_cases with h | h | h
    all_goals
      rw [h]
      decide
  have htight : Tight (w.mark ++ w.body) := by
    apply tight_of_forall
    intro c hc
    rcases List.mem_append.1 hc with hc | hc
    · exact Bool.eq_false_iff.2 (List.any_eq_false.1 hmark c hc)
    · exact (w.body_spec.plain hc).1
  have hne : w.mark ++ w.body ≠ [] := by
    intro hnil
    exact w.body_ne_nil (List.append_eq_nil_iff.1 hnil).2
  rw [text, String.toList_ofList, trim_around w.blank_before w.blank_after htight hne]

/-- Neither mark is taken for digits, nor digits for a mark. -/
theorem unmarked_text (w : Spelling a) : unmarked (w.mark ++ w.body) = w.body := by
  obtain ⟨-, hx, hX⟩ := w.body_spec.not_mem
  rcases w.mark_cases with h | h | h
  all_goals rw [h]
  · exact unmarked_marks_append 0 0 hx hX
  · exact unmarked_marks_append 1 0 hx hX
  · exact unmarked_marks_append 0 1 hx hX

theorem digitsOf_text (w : Spelling a) : digitsOf w.text = w.body.filter (· != '_') := by
  rw [digitsOf_eq, w.trim_text, w.unmarked_text]

/-- A spelling is read as its number, or refused as too large. -/
theorem parse_text (w : Spelling a) :
    parse w.text =
      if a < UInt64.size then .ok (UInt64.ofNat a) else .error .tooLarge := by
  have hvalue : Digits.value 16 (List.replicate w.zeros 0 ++ Digits.ofNat 16 a) = a := by
    rw [Digits.value_zeros_append, Digits.value_ofNat]
  rw [parse, w.digitsOf_text, Hex.number_of_digits (by decide) w.digits_ne_nil w.digits, hvalue]
  split
  · rfl
  · rfl

/-! ## The printed form -/

/-- The form in which an address is printed: a mark and as few upper-case digits as possible. -/
def printed (a : Nat) : Spelling a where
  before := []
  mark := ['0', 'x']
  zeros := 0
  body := (Digits.ofNat 16 a).map Hex.upper
  after := []
  blank_before := by simp
  blank_after := by simp
  mark_cases := .inr (.inl rfl)
  digits := by
    have hdigits :
        List.Forall₂ Hex.IsDigit ((Digits.ofNat 16 a).map Hex.upper) (Digits.ofNat 16 a) :=
      Hex.forall₂_isDigit_upper fun _ hd => Digits.lt_of_mem_ofNat (by decide) hd
    have hkeep : ((Digits.ofNat 16 a).map Hex.upper).filter (· != '_') =
        (Digits.ofNat 16 a).map Hex.upper := by
      rw [List.filter_eq_self]
      intro c hc
      obtain ⟨d, hd⟩ := Hex.exists_isDigit_of_mem hdigits hc
      exact bne_iff_ne.2 hd.plain.2.2.1
    rw [hkeep]
    exact hdigits

theorem text_printed (a : UInt64) : (printed a.toNat).text = Scan.address a := by
  apply String.toList_inj.1
  rw [text, Scan.address, Hex.shortUpper, String.toList_append, String.toList_ofList,
    String.toList_ofList]
  simp [printed]

end Spelling

/-- Every spelling of a number below the limit of 64 bits is read as that number, every
spelling of another number is refused as too large, and what is printed for an address is read
as that address. -/
theorem spelling_read :
    (∀ (a : Nat) (w : Spelling a), parse w.text =
      if a < UInt64.size then .ok (UInt64.ofNat a) else .error .tooLarge)
    ∧ ∀ a : UInt64, parse (Scan.address a) = .ok a := by
  refine ⟨fun a w => w.parse_text, fun a => ?_⟩
  rw [← Spelling.text_printed, Spelling.parse_text, if_pos a.toNat_lt_size, UInt64.ofNat_toNat]

example : parse " 0X_0dead_BEEF " = .ok 0xDEADBEEF := by decide

end Command.HexAddress

end SigScan
