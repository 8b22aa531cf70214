/-
SigScan.Proofs.Pattern.Grammar — the texts of patterns.

The grammar is given apart from the reader. The words of a text are the pieces between its
blanks that are not empty (`words_eq_pieces`), `Spells` says which words stand for which
token, and `Refuses` which fault a list of words has if it is no pattern. The reader accepts
exactly the texts of the grammar, with its tokens, and gives exactly its faults
(`parse_grammar`). A word that is taken for two digits is always read as a number, so the
fault of an unread number does not occur; and the written form of a pattern is a text of the
grammar that reads back and is written alike again.
-/
import SigScan.Pattern
import SigScan.Proofs.Text.Digits

namespace SigScan

/-! ## Words of a text -/

namespace Text

/-- The pieces between the blanks of a text that are not empty. -/
def pieces (cs : List Char) : List (List Char) :=
  (cs.splitOnP isBlank).filter (!·.isEmpty)

theorem modifyHead_nil_append (ws : List (List Char)) :
    ws.modifyHead (([] : List Char).reverse ++ ·) = ws := by
  cases ws <;> rfl

/-- A word begun with `run` goes on in the first piece, which may be empty. -/
theorem wordsAfter_eq (run cs : List Char) :
    wordsAfter run cs =
      ((cs.splitOnP isBlank).modifyHead (run.reverse ++ ·)).filter (!·.isEmpty) := by
  induction cs generalizing run with
  | nil => cases run <;> simp [wordsAfter]
  | cons c cs ih =>
    rw [wordsAfter, List.splitOnP_cons_eq_if_modifyHead]
    cases hc : isBlank c with
    | true =>
      have hnil : wordsAfter [] cs = (cs.splitOnP isBlank).filter (!·.isEmpty) := by
        rw [ih, modifyHead_nil_append]
      cases run with
      | nil => simp [hnil]
      | cons d run => simp [hnil]
    | false => simp [ih, List.modifyHead_modifyHead, Function.comp_def]

/-- The reader cuts a text into its pieces. -/
theorem words_eq_pieces (cs : List Char) : words cs = pieces cs := by
  rw [words, wordsAfter_eq, modifyHead_nil_append, pieces]

end Text

/-! ## Words of a pattern -/

namespace Token

/-- A word spells a token: one or two question marks a wildcard, two hexadecimal digits a
byte, the higher digit first. -/
inductive Spells : List Char → Token → Prop where
  | mark : Spells ['?'] .any
  | marks : Spells ['?', '?'] .any
  | digits {a b : Char} {hi lo : Nat} (ha : Text.Hex.IsDigit a hi) (hb : Text.Hex.IsDigit b lo) :
      Spells [a, b] (.byte (UInt8.ofNat (16 * hi + lo)))

theorem ofWord?_eq_some_iff_spells {w : List Char} {t : Token} :
    ofWord? w = some t ↔ Spells w t := by
  simp only [ofWord?_eq_some_iff, Text.Hex.value?_eq_some_iff_isDigit]
  constructor
  · rintro (⟨rfl, rfl⟩ | ⟨rfl, rfl⟩ | ⟨a, b, hi, lo, rfl, ha, hb, rfl⟩)
    · exact .mark
    · exact .marks
    · exact .digits ha hb
  · intro h
    cases h with
    | mark => exact .inl ⟨rfl, rfl⟩
    | marks => exact .inr (.inl ⟨rfl, rfl⟩)
    | digits ha hb => exact .inr (.inr ⟨_, _, _, _, rfl, ha, hb, rfl⟩)

theorem ofWord?_eq_none_iff_spells {w : List Char} :
    ofWord? w = none ↔ ∀ t, ¬ Spells w t := by
  simp only [Option.eq_none_iff_forall_ne_some, ne_eq, ofWord?_eq_some_iff_spells]

end Token

namespace Pattern

/-- The fault of words that make no pattern: there are none, or one is the first that spells
no token. -/
inductive Refuses : List (List Char) → Fault → Prop where
  | empty : Refuses [] .empty
  | invalidToken {before after : List (List Char)} {w : List Char}
      (hbefore : ∀ v ∈ before, ∃ t, Token.Spells v t) (hw : ∀ t, ¬ Token.Spells w t) :
      Refuses (before ++ w :: after) (.invalidToken (String.ofList w))

theorem ofWords_eq_ok_iff_spells {ws : List (List Char)} {tokens : Pattern} :
    ofWords ws = .ok tokens ↔ List.Forall₂ Token.Spells ws tokens := by
  rw [ofWords_eq_ok_iff, ← List.forall₂_eq_eq_eq, List.forall₂_map_left_iff,
    List.forall₂_map_right_iff]
  simp only [Token.ofWord?_eq_some_iff_spells]

/-- Words are refused at the first one that spells no token. -/
theorem ofWords_eq_error_iff {ws : List (List Char)} {fault : Fault} :
    ofWords ws = .error fault ↔
      ∃ before w after, ws = before ++ w :: after ∧ (∀ v ∈ before, ∃ t, Token.Spells v t)
        ∧ (∀ t, ¬ Token.Spells w t) ∧ fault = .invalidToken (String.ofList w) := by
  induction ws with
  | nil => simp [ofWords]
  | cons v ws ih =>
    rw [ofWords_cons]
    cases hv : Token.ofWord? v with
    | none =>
      have hnot := Token.ofWord?_eq_none_iff_spells.1 hv
      constructor
      · intro h
        exact ⟨[], v, ws, rfl, by simp, hnot, (Except.error.inj h).symm⟩
      · rintro ⟨before, w, after, hws, hbefore, -, rfl⟩
        -- No word in front of the first bad one can be `v`.
        cases before with
        | nil => rw [(List.cons.inj hws).1]
        | cons u before =>
          obtain ⟨t, ht⟩ := hbefore u List.mem_cons_self
          rw [← (List.cons.inj hws).1] at ht
          exact absurd ht (hnot t)
    | some t =>
      have ht := Token.ofWord?_eq_some_iff_spells.1 hv
      have hmap : (ofWords ws).map (t :: ·) = .error fault ↔ ofWords ws = .error fault := by
        cases ofWords ws with
        | error f => exact Iff.rfl
        | ok ts => exact iff_of_false (by rintro ⟨⟩) (by rintro ⟨⟩)
      rw [hmap, ih]
      constructor
      · rintro ⟨before, w, after, rfl, hbefore, hw, hfault⟩
        exact ⟨v :: before, w, after, rfl, List.forall_mem_cons.2 ⟨⟨t, ht⟩, hbefore⟩, hw, hfault⟩
      · rintro ⟨before, w, after, hws, hbefore, hw, hfault⟩
        cases before with
        | nil =>
          rw [(List.cons.inj hws).1] at ht
          exact absurd ht (hw t)
        | cons u before =>
          exact ⟨before, w, after, (List.cons.inj hws).2,
            (List.forall_mem_cons.1 hbefore).2, hw, hfault⟩

/-- Only a list without words gives no tokens. -/
theorem ofWords_eq_ok_nil_iff {ws : List (List Char)} : ofWords ws = .ok [] ↔ ws = [] := by
  rw [ofWords_eq_ok_iff_spells, List.forall₂_nil_right_iff]

theorem refuses_iff {ws : List (List Char)} {fault : Fault} :
    Refuses ws fault ↔ (ws = [] ∧ fault = .empty) ∨ ofWords ws = .error fault := by
  rw [ofWords_eq_error_iff]
  constructor
  · intro h
    cases h with
    | empty => exact .inl ⟨rfl, rfl⟩
    | invalidToken hbefore hw => exact .inr ⟨_, _, _, rfl, hbefore, hw, rfl⟩
  · rintro (⟨rfl, rfl⟩ | ⟨before, w, after, rfl, hbefore, hw, rfl⟩)
    · exact .empty
    · exact .invalidToken hbefore hw

/-! ## Texts of a pattern -/

theorem parse_eq_ok_iff_spells {text : String} {tokens : Pattern} :
    parse text = .ok tokens ↔
      tokens ≠ [] ∧ List.Forall₂ Token.Spells (Text.pieces text.toList) tokens := by
  rw [parse_eq_ok_iff, ← ofWords_eq_ok_iff, ofWords_eq_ok_iff_spells, Text.words_eq_pieces]

/-- A text is refused with the fault of its words. -/
theorem parse_eq_error_iff {text : String} {fault : Fault} :
    parse text = .error fault ↔ Refuses (Text.pieces text.toList) fault := by
  rw [parse, Text.words_eq_pieces, refuses_iff]
  have hnil : ofWords (Text.pieces text.toList) = .ok [] ↔ Text.pieces text.toList = [] :=
    ofWords_eq_ok_nil_iff
  cases hws : ofWords (Text.pieces text.toList) with
  | error f =>
    rw [hws] at hnil
    simp [← hnil]
  | ok tokens =>
    rw [hws, Except.ok.injEq] at hnil
    cases tokens with
    | nil => simp [hnil.1 rfl, eq_comm]
    | cons t ts => simp [← hnil]

/-- Two digits are always read as a number that a byte holds. -/
theorem number_of_isPair {w : List Char} (h : isPair w = true) :
    ∃ n < 256, Text.Hex.number UInt8.size w = .ok n := by
  obtain ⟨a, b, hi, lo, rfl, ha, hb⟩ := isPair_iff.1 h
  have hhi := Text.Hex.lt_of_value?_eq_some ha
  have hlo := Text.Hex.lt_of_value?_eq_some hb
  exact ⟨16 * hi + lo, by omega, number_pair ha hb⟩

/-- Words that each spell some token spell a list of tokens. -/
theorem exists_spelled_iff {ws : List (List Char)} :
    (∃ tokens, List.Forall₂ Token.Spells ws tokens) ↔ ∀ w ∈ ws, ∃ t, Token.Spells w t := by
  induction ws with
  | nil => simp
  | cons w ws ih =>
    rw [List.forall_mem_cons, ← ih]
    constructor
    · rintro ⟨tokens, h⟩
      cases h with
      | cons ht hts => exact ⟨⟨_, ht⟩, ⟨_, hts⟩⟩
    · rintro ⟨⟨t, ht⟩, ⟨ts, hts⟩⟩
      exact ⟨t :: ts, .cons ht hts⟩

theorem exists_parse_eq_ok_iff {text : String} :
    (∃ tokens, parse text = .ok tokens) ↔
      Text.pieces text.toList ≠ [] ∧
        ∀ w ∈ Text.pieces text.toList, ∃ t, Token.Spells w t := by
  rw [← exists_spelled_iff]
  simp only [parse_eq_ok_iff_spells]
  constructor
  · rintro ⟨tokens, hne, hspells⟩
    refine ⟨?_, tokens, hspells⟩
    intro hnil
    rw [hnil, List.forall₂_nil_left_iff] at hspells
    exact hne hspells
  · rintro ⟨hne, tokens, hspells⟩
    refine ⟨tokens, ?_, hspells⟩
    rintro rfl
    exact hne (List.forall₂_nil_right_iff.1 hspells)

/-- How a text is read: by the grammar alone. -/
structure ReadsGrammar (text : String) : Prop where
  /-- It is read exactly if it has words and each of them spells a token. -/
  reads_iff : (∃ tokens, parse text = .ok tokens) ↔
    Text.pieces text.toList ≠ [] ∧ ∀ w ∈ Text.pieces text.toList, ∃ t, Token.Spells w t
  /-- It is read as the tokens that its words spell, in their order. -/
  tokens_spelled : ∀ tokens, parse text = .ok tokens →
    List.Forall₂ Token.Spells (Text.pieces text.toList) tokens
  /-- It is refused for having no word, or for the first word that spells no token. -/
  refused_iff : ∀ fault, parse text = .error fault ↔
    Refuses (Text.pieces text.toList) fault
  /-- The reason given is that it is empty, or names a word of it. -/
  reasons : ∀ fault, parse text = .error fault →
    fault.reason = "pattern is empty" ∨ ∃ w ∈ Text.pieces text.toList,
      fault.reason = s!"invalid token '{String.ofList w}', expected two hex digits or ??"
  /-- A word of it that is taken for two digits is read as a number that a byte holds. -/
  pairs_read : ∀ w ∈ Text.pieces text.toList, isPair w = true →
    ∃ n < 256, Text.Hex.number UInt8.size w = .ok n
  /-- So the fault of an unread pair does not occur. -/
  never_unread : ∀ word cause, parse text ≠ .error (.invalidByte word cause)
  /-- The written form of what was read reads the same, and is written alike. -/
  format_stable : ∀ tokens, parse text = .ok tokens →
    parse (format tokens) = .ok tokens ∧
      ∀ again, parse (format tokens) = .ok again → format again = format tokens

/-- Every text is read by the grammar, and every written form reads back. -/
theorem parse_grammar :
    (∀ text, ReadsGrammar text) ∧ ∀ tokens, tokens ≠ [] → parse (format tokens) = .ok tokens := by
  refine ⟨fun text => ?_, fun tokens hne => parse_format hne⟩
  refine
    { reads_iff := exists_parse_eq_ok_iff
      tokens_spelled := fun tokens h => (parse_eq_ok_iff_spells.1 h).2
      refused_iff := fun fault => parse_eq_error_iff
      reasons := ?_
      pairs_read := fun w _ => number_of_isPair
      never_unread := ?_
      format_stable := ?_ }
  · intro fault h
    have hrefuses := parse_eq_error_iff.1 h
    generalize Text.pieces text.toList = ws at hrefuses ⊢
    cases hrefuses with
    | empty => exact .inl rfl
    | invalidToken => exact .inr ⟨_, by simp, rfl⟩
  · intro word cause h
    have hrefuses := parse_eq_error_iff.1 h
    generalize Text.pieces text.toList = ws at hrefuses
    cases hrefuses
  · intro tokens h
    have hback := parse_format (parse_eq_ok_iff_spells.1 h).1
    refine ⟨hback, ?_⟩
    intro again hagain
    rw [hback] at hagain
    rw [Except.ok.inj hagain]

/-- A byte, a wildcard and a byte in other blanks and cases than their written form has, and a
sign that a number might begin with. -/
theorem parse_grammar_mixedCase :
    List.Forall₂ Token.Spells (Text.pieces "e8\t?  0F ".toList) [.byte 0xE8, .any, .byte 0x0F]
    ∧ Refuses (Text.pieces "e8 +5 g".toList) (.invalidToken "+5")
    ∧ parse (format [.byte 0xE8, .any, .byte 0x0F]) = .ok [.byte 0xE8, .any, .byte 0x0F] := by
  obtain ⟨hreads, hback⟩ := parse_grammar
  refine ⟨?_, ?_, ?_⟩
  · exact (hreads "e8\t?  0F ").tokens_spelled _ rfl
  · exact ((hreads "e8 +5 g").refused_iff _).1 rfl
  · exact hback _ (by simp)

end Pattern

end SigScan
