/-
SigScan.Proofs.Signature.Representation — what a compiled signature holds.

Compiling succeeds exactly for a text that can be read and has a literal byte, and then
loses nothing: every token is found again at its place, and wildcards behind them
(`Represents`). A word has in each lane of its mask all bits or none, and data only where
the mask has bits. The first literal byte is the anchor, and the offset of resolution is
the author's or that of an opening near call or jump. A text that is refused is carried
by the error with its blanks (`compile_represents`).
-/
import SigScan.Proofs.Signature.Equivalence

namespace SigScan

open Bytes

/-! ## Words made from tokens -/

namespace MaskedWord

/-- A lane of the mask has all bits or none. -/
theorem lane_mask_ofTokens_cases (tokens : Pattern) {k : Nat} (hk : k < 8) :
    lane (ofTokens tokens).mask k = 0 ∨ lane (ofTokens tokens).mask k = 0xFF := by
  rw [lane_mask_ofTokens _ hk]
  cases tokens[k]? with
  | none => exact .inl rfl
  | some t =>
    cases t with
    | any => exact .inl rfl
    | byte b => exact .inr rfl

/-- The data has bits only where the mask has. -/
theorem data_and_mask_ofTokens (tokens : Pattern) :
    (ofTokens tokens).data &&& (ofTokens tokens).mask = (ofTokens tokens).data := by
  rw [eq_iff_lanes]
  intro k hk
  rw [lane_and, lane_data_ofTokens _ hk, lane_mask_ofTokens _ hk]
  cases tokens[k]? with
  | none => rfl
  | some t =>
    cases t with
    | any => rfl
    | byte b =>
      simp only [Option.map_some, Option.getD_some, dataByte, maskByte]
      rw [show (0xFF : UInt8) = -1 from rfl, UInt8.and_neg_one]

end MaskedWord

namespace Pattern

theorem exists_of_mem_firstWords {count : Nat} {tokens : Pattern} {w : MaskedWord}
    (h : w ∈ firstWords count tokens) : ∃ ts, w = MaskedWord.ofTokens ts := by
  induction count generalizing tokens with
  | zero => simp [firstWords] at h
  | succ n ih =>
    rcases List.mem_cons.1 h with rfl | h
    · exact ⟨_, rfl⟩
    · exact ih h

/-! ## The first literal byte -/

theorem anchor?_any_cons {ts : Pattern} {i : Nat} {b : UInt8} :
    anchor? (.any :: ts) = some (i + 1, b) ↔ ts.anchor? = some (i, b) := by
  simp [anchor?]

/-- The anchor is the literal byte in front of which there are only wildcards. -/
theorem anchor?_eq_some_iff {tokens : Pattern} {i : Nat} {b : UInt8} :
    tokens.anchor? = some (i, b) ↔
      tokens[i]? = some (.byte b) ∧ ∀ j < i, tokens[j]? = some .any := by
  induction tokens generalizing i with
  | nil => simp [anchor?]
  | cons t ts ih =>
    cases t with
    | byte x =>
      cases i with
      | zero => simp [anchor?]
      | succ i =>
        constructor
        · intro h
          simp [anchor?] at h
        · rintro ⟨-, hall⟩
          simpa using hall 0 (by omega)
    | any =>
      cases i with
      | zero => simp [anchor?]
      | succ i =>
        rw [anchor?_any_cons, ih, Nat.forall_lt_succ_left]
        simp

/-- There is an anchor exactly if there is a literal byte. -/
theorem isSome_anchor?_iff {tokens : Pattern} :
    tokens.anchor?.isSome ↔ ∃ b, Token.byte b ∈ tokens := by
  induction tokens with
  | nil => simp [anchor?]
  | cons t ts ih =>
    cases t with
    | byte b => simp [anchor?]
    | any => simp [anchor?, ih]

end Pattern

/-! ## Compiling -/

namespace Idiom

theorem opensNear_iff {first : Token} :
    opensNear first = true ↔ first = .byte 0xE8 ∨ first = .byte 0xE9 := by
  cases first with
  | any => simp [opensNear]
  | byte b => simp [opensNear, nearCallOpcode, nearJumpOpcode]

/-- An author's offset is taken as it is. -/
theorem snd_classify_some (first : Token) (n : UInt32) : (classify first (some n)).2 = n := by
  by_cases hn : n = 0
  · simp [classify, hn]
  · simp [classify, hn]

/-- Without one the first token decides. -/
theorem snd_classify_none (first : Token) :
    (classify first none).2 = if first = .byte 0xE8 ∨ first = .byte 0xE9 then 1 else 0 := by
  simp only [classify_none, opensNear_iff]
  split
  · rfl
  · rfl

end Idiom

namespace Signature

theorem ofTokens_cases (text : String) (tokens : Pattern) (offset : Option UInt32) :
    ((¬ ∃ b, Token.byte b ∈ tokens) ∧ ofTokens text tokens offset = .error .noLiteral) ∨
    ((∃ b, Token.byte b ∈ tokens) ∧ ∃ s, ofTokens text tokens offset = .ok s) := by
  rw [← Pattern.isSome_anchor?_iff]
  cases ha : tokens.anchor? with
  | none =>
    left
    cases tokens with
    | nil => simp [ofTokens]
    | cons first rest => simp [ofTokens, ha]
  | some anchor =>
    right
    cases tokens with
    | nil => simp [Pattern.anchor?] at ha
    | cons first rest => simp [ofTokens, ha]

/-- A text is refused by the reader, or read without a literal byte, or compiled. -/
theorem compile_cases (text : String) (offset : Option UInt32) :
    (∃ fault, Pattern.parse text = .error fault ∧ compile text offset = .error ⟨text, fault⟩) ∨
    (∃ tokens, Pattern.parse text = .ok tokens ∧ (¬ ∃ b, Token.byte b ∈ tokens)
      ∧ compile text offset = .error ⟨text, .noLiteral⟩) ∨
    (∃ tokens s, Pattern.parse text = .ok tokens ∧ (∃ b, Token.byte b ∈ tokens)
      ∧ compile text offset = .ok s) := by
  cases hp : Pattern.parse text with
  | error fault => exact .inl ⟨fault, rfl, by rw [compile, hp]⟩
  | ok tokens =>
    have hc : compile text offset =
        (ofTokens text tokens offset).mapError (Pattern.Malformed.mk text) := by
      rw [compile, hp]
    rcases ofTokens_cases text tokens offset with ⟨hnone, ho⟩ | ⟨hsome, s, ho⟩
    · refine .inr (.inl ⟨tokens, rfl, hnone, ?_⟩)
      rw [hc, ho]
      rfl
    · refine .inr (.inr ⟨tokens, s, rfl, hsome, ?_⟩)
      rw [hc, ho]
      rfl

/-! ## What is kept of the tokens -/

/-- What a signature holds that was compiled from these tokens with an author's offset. -/
structure Represents (tokens : Pattern) (offset : Option UInt32) (s : Signature) : Prop where
  rawLen_eq : s.rawLen = tokens.length
  /-- Eight tokens share a word of data and a word of mask. -/
  length_data : (s.words.map MaskedWord.data).length = (tokens.length + 7) / 8
  length_mask : (s.words.map MaskedWord.mask).length = (tokens.length + 7) / 8
  /-- A lane of a mask has all bits or none. -/
  mask_lanes : ∀ w ∈ s.words, ∀ k < 8, lane w.mask k = 0 ∨ lane w.mask k = 0xFF
  /-- Data has no bit outside its mask. -/
  data_masked : ∀ w ∈ s.words, w.data &&& w.mask = w.data
  /-- Each token is found at its place, and wildcards behind the last. -/
  tokenAt_eq : ∀ i < tokens.length, tokens[i]? = some (s.tokenAt i)
  tokenAt_any : ∀ i, tokens.length ≤ i → s.tokenAt i = .any
  /-- The anchor is a literal byte with wildcards only in front of it. -/
  anchor_literal : tokens[s.anchorIndex]? = some (.byte s.anchorByte)
  anchor_first : ∀ j < s.anchorIndex, tokens[j]? = some .any
  direct_iff : s.mode = .direct ↔ s.offset = 0
  /-- An author's offset is kept. -/
  offset_given : ∀ n, offset = some n → s.offset = n
  /-- Otherwise it is one behind an opening near call or jump, and zero in all other cases. -/
  offset_near : offset = none →
    (s.offset = 1 ↔ tokens[0]? = some (.byte 0xE8) ∨ tokens[0]? = some (.byte 0xE9))
  offset_none : offset = none → s.offset = 1 ∨ s.offset = 0

theorem Compiles.exists_of_mem_words {tokens : Pattern} {s : Signature} (h : Compiles tokens s)
    {w : MaskedWord} (hmem : w ∈ s.words) : ∃ ts, w = MaskedWord.ofTokens ts := by
  rw [h.fields.2.1] at hmem
  exact Pattern.exists_of_mem_firstWords hmem

theorem represents_of_compile {text : String} {offset : Option UInt32} {tokens : Pattern}
    {s : Signature} (hp : Pattern.parse text = .ok tokens) (hc : compile text offset = .ok s) :
    Represents tokens offset s := by
  have hs : Compiles tokens s := ⟨text, offset, hp, hc⟩
  obtain ⟨-, hw, hr, ha⟩ := hs.fields
  obtain ⟨first, rest, hp', -, -, -, -, hclass⟩ := compile_eq_ok_iff.1 hc
  obtain rfl : tokens = first :: rest := by simpa [hp] using hp'
  obtain ⟨hliteral, hfirst⟩ := Pattern.anchor?_eq_some_iff.1 ha
  have hmode := Idiom.mode_classify_eq_direct_iff first offset
  rw [hclass] at hmode
  have hoffset : s.offset = (Idiom.classify first offset).2 := by
    rw [hclass]
  refine
    { rawLen_eq := hr
      length_data := by rw [List.length_map, hw, Pattern.length_pack]
      length_mask := by rw [List.length_map, hw, Pattern.length_pack]
      mask_lanes := ?_
      data_masked := ?_
      tokenAt_eq := ?_
      tokenAt_any := ?_
      anchor_literal := hliteral
      anchor_first := hfirst
      direct_iff := hmode
      offset_given := ?_
      offset_near := ?_
      offset_none := ?_ }
  · intro w hmem k hk
    obtain ⟨ts, rfl⟩ := hs.exists_of_mem_words hmem
    exact MaskedWord.lane_mask_ofTokens_cases ts hk
  · intro w hmem
    obtain ⟨ts, rfl⟩ := hs.exists_of_mem_words hmem
    exact MaskedWord.data_and_mask_ofTokens ts
  · intro i hi
    rw [hs.tokenAt_eq, List.getElem?_eq_getElem hi, Option.getD_some]
  · intro i hi
    rw [hs.tokenAt_eq, List.getElem?_eq_none hi, Option.getD_none]
  · rintro n rfl
    rw [hoffset, Idiom.snd_classify_some]
  · rintro rfl
    rw [hoffset, Idiom.snd_classify_none, List.getElem?_cons_zero, Option.some.injEq,
      Option.some.injEq]
    split
    · next hnear => simpa using hnear
    · next hnear => simpa using hnear
  · rintro rfl
    rw [hoffset, Idiom.snd_classify_none]
    split
    · exact .inl rfl
    · exact .inr rfl

/-- A compiled signature resolves directly exactly if its offset is zero. -/
theorem IsCompiled.mode_eq_direct_iff {s : Signature} (h : s.IsCompiled) :
    s.mode = .direct ↔ s.offset = 0 := by
  obtain ⟨tokens, text, offset, hp, hc⟩ := h.exists_tokens
  exact (represents_of_compile hp hc).direct_iff

/-- Compiling succeeds exactly for a text that is read with a literal byte, it keeps all
tokens, and a text that is refused is carried by the error as it was given. -/
theorem compile_represents (text : String) (offset : Option UInt32) :
    ((∃ s, compile text offset = .ok s) ↔
      ∃ tokens, Pattern.parse text = .ok tokens ∧ ∃ b, Token.byte b ∈ tokens)
    ∧ (∀ s tokens, compile text offset = .ok s → Pattern.parse text = .ok tokens →
      Represents tokens offset s)
    ∧ (∀ cause, compile text offset = .error cause → cause.text = text ∧
      (Pattern.parse text = .error cause.fault ∨
        cause.fault = .noLiteral ∧ ∃ tokens, Pattern.parse text = .ok tokens)) := by
  refine ⟨?_, fun s tokens hc hp => represents_of_compile hp hc, ?_⟩
  · rcases compile_cases text offset with
      ⟨fault, hp, hc⟩ | ⟨tokens, hp, hnone, hc⟩ | ⟨tokens, s, hp, hsome, hc⟩
    · simp [hp, hc]
    · simpa [hp, hc] using hnone
    · simpa [hp, hc] using hsome
  · intro cause h
    rcases compile_cases text offset with
      ⟨fault, hp, hc⟩ | ⟨tokens, hp, -, hc⟩ | ⟨tokens, s, hp, -, hc⟩
    · rw [hc] at h
      obtain rfl := Except.error.inj h
      exact ⟨rfl, .inl hp⟩
    · rw [hc] at h
      obtain rfl := Except.error.inj h
      exact ⟨rfl, .inr ⟨rfl, tokens, hp⟩⟩
    · rw [hc] at h
      contradiction

/-- A near jump with blanks around it compiles and keeps its three tokens; wildcards alone are
refused with their blanks. -/
theorem compile_represents_nearJump :
    (∃ s, compile " e9 ?? 0F " none = .ok s ∧ Represents [.byte 0xE9, .any, .byte 0x0F] none s)
    ∧ ∃ cause, compile " ?? ? " none = .error cause ∧ cause.text = " ?? ? " := by
  obtain ⟨hiff, hkeeps, -⟩ := compile_represents " e9 ?? 0F " none
  obtain ⟨-, -, hcause⟩ := compile_represents " ?? ? " none
  obtain ⟨s, hs⟩ := hiff.2 ⟨[.byte 0xE9, .any, .byte 0x0F], rfl, 0x0F, by simp⟩
  exact ⟨⟨s, hs, hkeeps s _ hs rfl⟩, _, rfl, (hcause _ rfl).1⟩

end Signature

end SigScan
