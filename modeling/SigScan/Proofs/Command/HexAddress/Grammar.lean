/-
SigScan.Proofs.Command.HexAddress.Grammar — which texts are read as addresses.

The grammar is given apart from the reader. An address is a body of digits and underscores
with at least one digit (`Body`), behind one mark or none (`IsAddress`). The reader takes off
marks as often as they are there, the small ones first, and the number that it reads may begin
with a plus sign; so there are texts that it lets through although they are no addresses
(`LetThrough`, `LetThrough.not_isAddress`). These are read as the number of their digits, and
every other text that is no address is refused (`refused_unless_letThrough`).
-/
import SigScan.Proofs.Command.HexAddress

namespace SigScan

open SigScan.Text

namespace Command.HexAddress

/-! ## Marks in front -/

theorem count_marks (small capital : Nat) :
    (marks small capital).count 'x' = small ∧ (marks small capital).count 'X' = capital := by
  simp [marks, List.count_flatten]

theorem exists_eq_replicate_append_dropMarks (a b : Char) (cs : List Char) :
    ∃ n, cs = (List.replicate n [a, b]).flatten ++ dropMarks a b cs := by
  fun_induction dropMarks a b cs with
  | case1 c d rest h ih =>
    obtain ⟨rfl, rfl⟩ := h
    obtain ⟨n, hn⟩ := ih
    refine ⟨n + 1, ?_⟩
    rw [List.replicate_succ, List.flatten_cons, List.append_assoc, ← hn]
    rfl
  | case2 => exact ⟨0, rfl⟩
  | case3 => exact ⟨0, rfl⟩

theorem exists_eq_marks_append_unmarked (cs : List Char) :
    ∃ small capital, cs = marks small capital ++ unmarked cs := by
  obtain ⟨small, hsmall⟩ := exists_eq_replicate_append_dropMarks '0' 'x' cs
  obtain ⟨capital, hcapital⟩ := exists_eq_replicate_append_dropMarks '0' 'X' (dropMarks '0' 'x' cs)
  refine ⟨small, capital, ?_⟩
  rw [marks, unmarked, List.append_assoc, ← hcapital, ← hsmall]

/-! ## Addresses, and what else is let through -/

/-- An address: a mark or none, and a body with a digit. -/
def IsAddress (cs : List Char) : Prop :=
  ∃ mark body ds, (mark = [] ∨ mark = ['0', 'x'] ∨ mark = ['0', 'X']) ∧ Body body ds ∧ ds ≠ []
    ∧ cs = mark ++ body

/-- A text that is read although it is no address, and its digits: there are several marks, or
there is a plus sign, with underscores in front of it or without. -/
inductive LetThrough : List Char → List Nat → Prop where
  | marked {small capital : Nat} {body : List Char} {ds : List Nat} (hmany : 1 < small + capital)
      (hbody : Body body ds) (hne : ds ≠ []) : LetThrough (marks small capital ++ body) ds
  | signed {small capital : Nat} {underscores body : List Char} {ds : List Nat}
      (hunderscores : ∀ c ∈ underscores, c = '_') (hbody : Body body ds) (hne : ds ≠ []) :
      LetThrough (marks small capital ++ (underscores ++ '+' :: body)) ds

/-- An address has no sign and at most one mark. -/
theorem IsAddress.count_le {cs : List Char} (h : IsAddress cs) :
    '+' ∉ cs ∧ cs.count 'x' + cs.count 'X' ≤ 1 := by
  obtain ⟨mark, body, ds, hmark, hbody, -, rfl⟩ := h
  obtain ⟨hsign, hx, hX⟩ := hbody.not_mem
  have hcount : body.count 'x' = 0 ∧ body.count 'X' = 0 :=
    ⟨List.count_eq_zero_of_not_mem hx, List.count_eq_zero_of_not_mem hX⟩
  rcases hmark with rfl | rfl | rfl
  all_goals simp [hsign, hcount]

theorem LetThrough.sign_or_lt_count {cs : List Char} {ds : List Nat} (h : LetThrough cs ds) :
    '+' ∈ cs ∨ 1 < cs.count 'x' + cs.count 'X' := by
  cases h with
  | @marked small capital body ds hmany =>
    obtain ⟨hsmall, hcapital⟩ := count_marks small capital
    right
    rw [List.count_append, List.count_append, hsmall, hcapital]
    omega
  | signed =>
    left
    simp

/-- What is let through is no address. -/
theorem LetThrough.not_isAddress {cs : List Char} {ds : List Nat} (h : LetThrough cs ds) :
    ¬ IsAddress cs := by
  intro haddress
  obtain ⟨hsign, hcount⟩ := haddress.count_le
  rcases h.sign_or_lt_count with hmem | hlt
  · exact hsign hmem
  · omega

/-! ## Signs and underscores -/

/-- Underscores in front of a sign do not count. -/
theorem filter_signed {underscores : List Char} (h : ∀ c ∈ underscores, c = '_')
    (body : List Char) :
    (underscores ++ '+' :: body).filter (· != '_') = '+' :: body.filter (· != '_') := by
  have hdropped : underscores.filter (· != '_') = [] := by
    rw [List.filter_eq_nil_iff]
    intro c hc
    simp [h c hc]
  rw [List.filter_append, hdropped, List.nil_append, List.filter_cons_of_pos (by decide)]

theorem not_mem_signed {underscores body : List Char} {ds : List Nat}
    (h : ∀ c ∈ underscores, c = '_') (hbody : Body body ds) :
    'x' ∉ underscores ++ '+' :: body ∧ 'X' ∉ underscores ++ '+' :: body := by
  obtain ⟨-, hx, hX⟩ := hbody.not_mem
  constructor
  all_goals
    intro hmem
    rcases List.mem_append.1 hmem with hmem | hmem
    · exact absurd (h _ hmem) (by decide)
    · simp [hx, hX] at hmem

/-- If a sign counts first and only digits behind it, there are only underscores in front of it
and a body behind it. -/
theorem exists_eq_signed {cs digits : List Char} {ds : List Nat}
    (h : cs.filter (· != '_') = '+' :: digits) (hdigits : List.Forall₂ Hex.IsDigit digits ds) :
    ∃ underscores body, cs = underscores ++ '+' :: body ∧ (∀ c ∈ underscores, c = '_')
      ∧ Body body ds := by
  obtain ⟨underscores, body, hcs, hunderscores, -, hbody⟩ := List.filter_eq_cons_iff.1 h
  refine ⟨underscores, body, hcs, fun c hc => ?_, ?_⟩
  · simpa using hunderscores c hc
  · rw [body_iff, hbody]
    exact hdigits

/-! ## Reading -/

/-- Behind the marks a plus sign and underscores do not count. -/
theorem LetThrough.number_unmarked {cs : List Char} {ds : List Nat} (h : LetThrough cs ds) :
    Hex.number UInt64.size ((unmarked cs).filter (· != '_')) =
      if Digits.value 16 ds < UInt64.size then .ok (Digits.value 16 ds) else .error .tooLarge := by
  cases h with
  | @marked small capital body ds hmany hbody hne =>
    obtain ⟨-, hx, hX⟩ := hbody.not_mem
    rw [unmarked_marks_append small capital hx hX,
      Hex.number_of_digits (by decide) (hbody.digits_ne_nil hne) (body_iff.1 hbody)]
  | @signed small capital underscores body ds hunderscores hbody hne =>
    obtain ⟨hx, hX⟩ := not_mem_signed hunderscores hbody
    have hdigits := body_iff.1 hbody
    have hsome := hbody.digits_ne_nil hne
    rw [unmarked_marks_append small capital hx hX, filter_signed hunderscores,
      Hex.number_sign hsome hdigits, Hex.number_of_digits (by decide) hsome hdigits]

/-- Marks and a body behind them are an address, or there are too many marks. -/
theorem isAddress_or_letThrough_marks (small capital : Nat) {body : List Char} {ds : List Nat}
    (h : Body body ds) (hne : ds ≠ []) :
    IsAddress (marks small capital ++ body) ∨ LetThrough (marks small capital ++ body) ds := by
  by_cases hmany : 1 < small + capital
  · exact .inr (.marked hmany h hne)
  · left
    refine ⟨marks small capital, body, ds, ?_, h, hne, rfl⟩
    have hfew : small = 0 ∧ capital = 0 ∨ small = 1 ∧ capital = 0 ∨ small = 0 ∧ capital = 1 := by
      omega
    rcases hfew with ⟨rfl, rfl⟩ | ⟨rfl, rfl⟩ | ⟨rfl, rfl⟩
    · exact .inl rfl
    · exact .inr (.inl rfl)
    · exact .inr (.inr rfl)

/-- A text that is read is an address or let through. -/
theorem isAddress_or_letThrough_of_number {cs : List Char} {n : Nat}
    (h : Hex.number UInt64.size ((unmarked cs).filter (· != '_')) = .ok n) :
    IsAddress cs ∨ ∃ ds, LetThrough cs ds := by
  obtain ⟨small, capital, hcs⟩ := exists_eq_marks_append_unmarked cs
  obtain ⟨digits, ds, hform, hne, hdigits⟩ := Hex.exists_digits_of_number h
  have hds : ds ≠ [] := by
    rintro rfl
    exact hne (List.forall₂_nil_right_iff.1 hdigits)
  rw [hcs]
  rcases hform with hform | hform
  · have hbody : Body (unmarked cs) ds := by
      rw [body_iff, hform]
      exact hdigits
    exact (isAddress_or_letThrough_marks small capital hbody hds).imp_right fun h => ⟨ds, h⟩
  · obtain ⟨underscores, body, hrest, hunderscores, hbody⟩ := exists_eq_signed hform hdigits
    rw [hrest]
    exact .inr ⟨ds, .signed hunderscores hbody hds⟩

/-- A text that is no address is refused, unless it is let through; then it is read as the
number of its digits, if that fits into 64 bits. -/
theorem refused_unless_letThrough (text : String) (h : ¬ IsAddress (trim text.toList)) :
    ((∀ ds, ¬ LetThrough (trim text.toList) ds) → ∃ fault, parse text = .error fault)
    ∧ ∀ ds, LetThrough (trim text.toList) ds → parse text =
      if Digits.value 16 ds < UInt64.size then .ok (UInt64.ofNat (Digits.value 16 ds))
      else .error .tooLarge := by
  rw [parse, digitsOf_eq]
  constructor
  · intro hnot
    cases hn : Hex.number UInt64.size ((unmarked (trim text.toList)).filter (· != '_')) with
    | error fault => exact ⟨fault, rfl⟩
    | ok n =>
      rcases isAddress_or_letThrough_of_number hn with haddress | ⟨ds, hds⟩
      · exact absurd haddress h
      · exact absurd hds (hnot ds)
  · intro ds hds
    rw [hds.number_unmarked]
    split
    · rfl
    · rfl

/-- A mark that is not in front is refused; behind several marks a sign between underscores is
read over. -/
theorem refused_unless_letThrough_marks :
    (∃ fault, parse "00x10" = .error fault) ∧ parse " 0x0X_+_F " = .ok 0xF := by
  have hlate : trim "00x10".toList = ['0', '0', 'x', '1', '0'] := by decide
  have hsigned : trim " 0x0X_+_F ".toList = marks 1 1 ++ (['_'] ++ '+' :: ['_', 'F']) := by decide
  have hbody : Body ['_', 'F'] [15] :=
    .underscore (.digit ⟨by decide, .inl rfl⟩ .nil)
  have hthrough : LetThrough (trim " 0x0X_+_F ".toList) [15] := by
    rw [hsigned]
    exact .signed (by simp) hbody (by simp)
  have hnot : ¬ IsAddress (trim "00x10".toList) := by
    rw [hlate]
    rintro ⟨mark, body, ds, rfl | rfl | rfl, hbody, -, heq⟩
    · have hmem : 'x' ∈ body := by
        rw [← List.nil_append body, ← heq]
        decide
      exact hbody.not_mem.2.1 hmem
    · simp at heq
    · simp at heq
  have hnone : ∀ ds, ¬ LetThrough (trim "00x10".toList) ds := by
    intro ds h
    rw [hlate] at h
    exact absurd h.sign_or_lt_count (by decide)
  exact ⟨(refused_unless_letThrough "00x10" hnot).1 hnone,
    (refused_unless_letThrough " 0x0X_+_F " hthrough.not_isAddress).2 [15] hthrough⟩

/-- Two marks and a sign are each read over, though neither text is an address. -/
theorem not_refused_repeatedMark :
    (¬ IsAddress (trim "0x0x10".toList) ∧ parse "0x0x10" = .ok 0x10)
    ∧ ¬ IsAddress (trim "+10".toList) ∧ parse "+10" = .ok 0x10 := by
  have hbody : Body ['1', '0'] [1, 0] :=
    .digit ⟨by decide, .inl rfl⟩ (.digit ⟨by decide, .inl rfl⟩ .nil)
  have hmarked : trim "0x0x10".toList = marks 2 0 ++ ['1', '0'] := by decide
  have hsigned : trim "+10".toList = marks 0 0 ++ ([] ++ '+' :: ['1', '0']) := by decide
  refine ⟨⟨?_, by decide⟩, ?_, by decide⟩
  · rw [hmarked]
    exact (LetThrough.marked (by decide) hbody (by simp)).not_isAddress
  · rw [hsigned]
    exact (LetThrough.signed (by simp) hbody (by simp)).not_isAddress

end Command.HexAddress

end SigScan
