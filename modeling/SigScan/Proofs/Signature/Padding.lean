/-
SigScan.Proofs.Signature.Padding — the padded text of a signature compiles to it again.

The tokens of a padded signature are those of its pattern with wildcards behind them
(`Compiles.paddedTokens_eq`). Wildcards change neither the packed words, as long as they
begin no new one (`Pattern.pack_append_any`), nor the first literal byte, nor the first
token, so compiling the padded text changes the text and the number of tokens alone
(`compile_paddedPattern`). The text that a signature keeps, which has lost the blanks at its
ends, compiles to the very same signature (`compile_pattern`).
-/
import SigScan.Proofs.Signature.Representation
import SigScan.Proofs.Text.Trim

namespace SigScan

open Bytes

/-! ## Wildcards behind the tokens -/

namespace MaskedWord

theorem dataByte_getD (t : Option Token) : (t.map dataByte).getD 0 = dataByte (t.getD .any) := by
  cases t <;> rfl

theorem maskByte_getD (t : Option Token) : (t.map maskByte).getD 0 = maskByte (t.getD .any) := by
  cases t <;> rfl

/-- A word holds the tokens of its eight places, and a missing one counts as a wildcard. -/
theorem ofTokens_congr {as bs : Pattern} (h : ∀ k < 8, as[k]?.getD .any = bs[k]?.getD .any) :
    ofTokens as = ofTokens bs := by
  have hdata : (ofTokens as).data = (ofTokens bs).data := by
    rw [eq_iff_lanes]
    intro k hk
    rw [lane_data_ofTokens _ hk, lane_data_ofTokens _ hk, dataByte_getD, dataByte_getD, h k hk]
  have hmask : (ofTokens as).mask = (ofTokens bs).mask := by
    rw [eq_iff_lanes]
    intro k hk
    rw [lane_mask_ofTokens _ hk, lane_mask_ofTokens _ hk, maskByte_getD, maskByte_getD, h k hk]
  exact (congr (congrArg mk hdata) hmask : mk _ _ = mk _ _)

end MaskedWord

namespace Pattern

theorem getElem?_append_any (tokens : Pattern) (count i : Nat) :
    (tokens ++ List.replicate count .any)[i]?.getD .any = tokens[i]?.getD .any := by
  by_cases hi : i < tokens.length
  · rw [List.getElem?_append_left hi]
  · rw [List.getElem?_append_right (by omega), List.getElem?_replicate,
      List.getElem?_eq_none (by omega)]
    split <;> rfl

/-- Wildcards that begin no new word do not change the words. -/
theorem pack_append_any {tokens : Pattern} {count : Nat}
    (h : (tokens.length + count + 7) / 8 = (tokens.length + 7) / 8) :
    pack (tokens ++ List.replicate count .any) = tokens.pack := by
  apply List.ext_getElem?
  intro j
  rw [getElem?_pack, getElem?_pack, List.length_append, List.length_replicate, h]
  refine congrArg (fun w => if j < _ then some w else none) (MaskedWord.ofTokens_congr ?_)
  intro k hk
  rw [List.getElem?_take_of_lt hk, List.getElem?_take_of_lt hk, List.getElem?_drop,
    List.getElem?_drop, getElem?_append_any]

theorem anchor?_append {tokens : Pattern} {i : Nat} {b : UInt8}
    (h : tokens.anchor? = some (i, b)) (more : Pattern) :
    anchor? (tokens ++ more) = some (i, b) := by
  obtain ⟨hliteral, hfirst⟩ := anchor?_eq_some_iff.1 h
  have hi : i < tokens.length := (List.getElem?_eq_some_iff.1 hliteral).1
  refine anchor?_eq_some_iff.2 ⟨by rwa [List.getElem?_append_left hi], ?_⟩
  intro j hj
  rw [List.getElem?_append_left (by omega), hfirst j hj]

/-! ## The written form -/

/-- No written token has a blank, so the written form of a pattern has none at its ends. -/
theorem tight_chars (tokens : Pattern) : Text.Tight (chars tokens) where
  head := by
    intro c hc
    cases tokens with
    | nil => simp [chars] at hc
    | cons t ts =>
      obtain ⟨d, ds, hd⟩ := List.exists_cons_of_ne_nil t.word_ne_nil
      have hword : (chars (t :: ts)).head? = t.word.head? := by
        cases ts <;> simp [chars, hd]
      rw [hword] at hc
      exact t.isBlank_of_mem_word (List.mem_of_mem_head? hc)
  last := by
    induction tokens with
    | nil => simp [chars]
    | cons t ts ih =>
      cases ts with
      | nil =>
        intro c hc
        exact t.isBlank_of_mem_word (List.mem_of_mem_getLast? hc)
      | cons u us =>
        have hne : chars (u :: us) ≠ [] := by
          cases us <;> simp [chars, Token.word_ne_nil]
        have hchars : chars (t :: u :: us) = t.word ++ ' ' :: chars (u :: us) := rfl
        have hlast : (chars (t :: u :: us)).getLast? = (chars (u :: us)).getLast? := by
          obtain ⟨c, cs, hcs⟩ := List.exists_cons_of_ne_nil hne
          rw [hchars, hcs, List.getLast?_append, List.getLast?_cons_cons, List.getLast?_cons,
            Option.some_or]
        rw [hlast]
        exact ih

end Pattern

/-! ## Compiling again -/

namespace Signature

variable {text : String} {offset : Option UInt32} {tokens : Pattern} {s : Signature}

/-- The signature with its padded text, of which all tokens count. -/
def padded (s : Signature) : Signature :=
  { s with pattern := s.paddedPattern, rawLen := s.paddedLen }

theorem paddedPattern_padded (s : Signature) : s.padded.paddedPattern = s.paddedPattern := rfl

theorem Compiles.paddedLen_eq (h : Compiles tokens s) :
    s.paddedLen = 8 * ((tokens.length + 7) / 8) := by
  rw [paddedLen, h.fields.2.1, Pattern.length_pack]

/-- The padded tokens are the tokens and wildcards behind them. -/
theorem Compiles.paddedTokens_eq (h : Compiles tokens s) :
    s.paddedTokens = tokens ++ List.replicate (s.paddedLen - tokens.length) .any := by
  have hlen := h.paddedLen_eq
  rw [Signature.paddedTokens_eq]
  apply List.ext_getElem (by simp; omega)
  intro i hi hi'
  have hget := Pattern.getElem?_append_any tokens (s.paddedLen - tokens.length) i
  rw [List.getElem?_eq_getElem hi', Option.getD_some, ← h.tokenAt_eq] at hget
  rw [List.getElem_map, List.getElem_range, hget]

theorem Compiles.paddedTokens_ne_nil (h : Compiles tokens s) : s.paddedTokens ≠ [] := by
  rw [h.paddedTokens_eq]
  simp [h.fields.1]

/-- The padded text is read as the padded tokens. -/
theorem Compiles.parse_paddedPattern (h : Compiles tokens s) :
    Pattern.parse s.paddedPattern =
      .ok (tokens ++ List.replicate (s.paddedLen - tokens.length) .any) := by
  rw [← h.paddedTokens_eq, paddedPattern]
  exact Pattern.parse_format h.paddedTokens_ne_nil

/-- The padded text compiles to the signature with all of its padding. -/
theorem compile_paddedPattern (hc : compile text offset = .ok s) :
    compile s.paddedPattern offset = .ok s.padded := by
  obtain ⟨first, rest, hp, hanchor, -, hwords, -, hclass⟩ := compile_eq_ok_iff.1 hc
  have h : Compiles (first :: rest) s := ⟨text, offset, hp, hc⟩
  have hlen := h.paddedLen_eq
  have hparse := h.parse_paddedPattern
  rw [List.cons_append] at hparse
  rw [List.length_cons] at hlen
  refine compile_eq_ok_iff.2 ⟨first, _, hparse, Pattern.anchor?_append hanchor _, ?_, ?_, ?_,
    hclass⟩
  · rw [padded, paddedPattern, Pattern.format, String.toList_ofList,
      Text.trim_of_tight (Pattern.tight_chars _)]
  · rw [← List.cons_append, Pattern.pack_append_any (by rw [List.length_cons]; omega)]
    exact hwords
  · simp only [padded, List.length_append, List.length_replicate, List.length_cons]
    omega

theorem Compiles.padded (h : Compiles tokens s) :
    Compiles (tokens ++ List.replicate (s.paddedLen - tokens.length) .any) s.padded := by
  have hparse := h.parse_paddedPattern
  obtain ⟨text, offset, -, hc⟩ := h
  exact ⟨s.paddedPattern, offset, hparse, compile_paddedPattern hc⟩

/-! ## The text that is kept -/

theorem parse_trim (text : String) :
    Pattern.parse (String.ofList (Text.trim text.toList)) = Pattern.parse text := by
  rw [Pattern.parse, String.toList_ofList, Text.words_trim, ← Pattern.parse]

/-- The text that a signature keeps compiles to the same signature. -/
theorem compile_pattern (hc : compile text offset = .ok s) : compile s.pattern offset = .ok s := by
  obtain ⟨first, rest, hp, hanchor, htext, hwords, hlen, hclass⟩ := compile_eq_ok_iff.1 hc
  refine compile_eq_ok_iff.2 ⟨first, rest, ?_, hanchor, ?_, hwords, hlen, hclass⟩
  · rw [htext, parse_trim, hp]
  · rw [htext, String.toList_ofList, Text.trim_of_tight (Text.tight_trim _)]

end Signature

end SigScan
