/-
SigScan.Proofs.Signature.Equivalence — equivalent signatures differ in their texts alone.

The packed words give every token back (`Compiles.tokenAt_eq`), so a compiled signature is
determined by what equivalence compares: the first literal byte, which is not compared,
is read off the tokens. Two compiled signatures that are equivalent are therefore the same
up to the spelling of the pattern (`eq_of_isEquivalent`), and since neither a scan nor a
resolution looks at the spelling, they come to the same (`ownOutcome_eq_of_isEquivalent`).
-/
import SigScan.Proofs.Signature.Matching
import SigScan.Resolve
import SigScan.Scan.Pass

namespace SigScan

/-! ## Tokens read back -/

theorem MaskedWord.token_ofTokens (tokens : Pattern) {k : Nat} (hk : k < 8) :
    (ofTokens tokens).token k = tokens[k]?.getD .any := by
  rw [token, lane_mask_ofTokens _ hk, lane_data_ofTokens _ hk]
  cases tokens[k]? with
  | none => simp
  | some t => cases t <;> simp [maskByte, dataByte]

namespace Signature

/-- Packed words give every token back, and wildcards behind them. -/
theorem tokenAt_of_words {s : Signature} {tokens : Pattern} (h : s.words = tokens.pack)
    (i : Nat) : s.tokenAt i = tokens[i]?.getD .any := by
  have hk : i % 8 < 8 := Nat.mod_lt i (by omega)
  rw [tokenAt, h, Pattern.getElem?_pack]
  by_cases hi : i / 8 < (tokens.length + 7) / 8
  · simp only [hi, if_true]
    rw [MaskedWord.token_ofTokens _ hk, List.getElem?_take_of_lt hk, List.getElem?_drop,
      Nat.div_add_mod]
  · have hnone : tokens[i]? = none := List.getElem?_eq_none (by omega)
    simp [hi, hnone]

theorem Compiles.tokenAt_eq {tokens : Pattern} {s : Signature} (h : Compiles tokens s) (i : Nat) :
    s.tokenAt i = tokens[i]?.getD .any :=
  tokenAt_of_words h.fields.2.1 i

/-- The words and the number of tokens determine the tokens. -/
theorem Compiles.tokens_eq {as bs : Pattern} {a b : Signature} (ha : Compiles as a)
    (hb : Compiles bs b) (hw : a.words = b.words) (hr : a.rawLen = b.rawLen) : as = bs := by
  have hlen : as.length = bs.length := by rw [← ha.rawLen_eq, hr, hb.rawLen_eq]
  refine List.ext_getElem hlen ?_
  intro i hi hi'
  have hat : a.tokenAt i = b.tokenAt i := by rw [tokenAt, tokenAt, hw]
  rw [ha.tokenAt_eq, hb.tokenAt_eq] at hat
  simpa [hi, hi'] using hat

/-! ## Up to the text -/

/-- Signatures compiled from the same tokens are the same but for the spelling of the pattern
and for what was made of the author's offset. -/
theorem Compiles.eq_of_tokens {tokens : Pattern} {a b : Signature} (ha : Compiles tokens a)
    (hb : Compiles tokens b) :
    b = { a with pattern := b.pattern, offset := b.offset, idiom := b.idiom } := by
  obtain ⟨-, hwa, hra, haa⟩ := ha.fields
  obtain ⟨-, hwb, hrb, hab⟩ := hb.fields
  obtain ⟨hindex, hbyte⟩ := Prod.mk.inj (Option.some.inj (haa.symm.trans hab))
  rw [hwa, hra, hindex, hbyte, ← hwb, ← hrb]

/-- Equivalent compiled signatures are the same but for the spelling of the pattern. -/
theorem eq_of_isEquivalent {a b : Signature} (ha : a.IsCompiled) (hb : b.IsCompiled)
    (h : a.isEquivalent b = true) : b = { a with pattern := b.pattern } := by
  obtain ⟨as, has⟩ := ha.exists_tokens
  obtain ⟨bs, hbs⟩ := hb.exists_tokens
  obtain ⟨hw, hr, ho, hi⟩ := isEquivalent_iff.1 h
  obtain rfl := has.tokens_eq hbs hw hr
  rw [ho, hi]
  exact has.eq_of_tokens hbs

/-! ## What a signature comes to -/

/-- The outcome of a signature alone: it is scanned for by itself, and a single match is
resolved. -/
def ownOutcome (m : Source) (config : Scan.Config) (regions : List Region) (s : Signature) :
    Except FailureKind UInt64 :=
  match Scan.scanOne m config regions s with
  | .noMatch => .error .noMatch
  | .ambiguous count => .error (.ambiguous count)
  | .unique found => resolve m found s

/-- Neither a scan nor a resolution looks at the spelling of a pattern. -/
theorem ownOutcome_pattern (m : Source) (config : Scan.Config) (regions : List Region)
    (s : Signature) (text : String) :
    ownOutcome m config regions { s with pattern := text } = ownOutcome m config regions s :=
  rfl

theorem ownOutcome_eq_of_isEquivalent (m : Source) (config : Scan.Config) (regions : List Region)
    {a b : Signature} (ha : a.IsCompiled) (hb : b.IsCompiled) (h : a.isEquivalent b = true) :
    ownOutcome m config regions a = ownOutcome m config regions b := by
  rw [eq_of_isEquivalent ha hb h]
  exact (ownOutcome_pattern m config regions a b.pattern).symm

end Signature

end SigScan
