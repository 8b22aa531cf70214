/-
SigScan.Proofs.Scan.Padding — what the padding of a signature asks of a scan.

A scan looks for the tokens of a pattern and asks nothing of the bytes behind them, so the
last word of a signature may reach past the end of a region. In the padded text the wildcards
are tokens of their own and must fit (`stands_append_any`). The signature of the padded text
therefore has the starts of the first one that are as far from the end of the region as the
padding is long, and no others (`regionStarts_padded`, `padding_stable`).
-/
import SigScan.Proofs.Scan.Occurrence
import SigScan.Proofs.Signature.Padding

namespace SigScan

namespace Scan

variable {m : Source} {config : Config} {contents : UInt64 → UInt8} {r : Region}
  {tokens : Pattern} {s : Signature}

/-! ## Starts in a region that was read -/

theorem stands_append_any {count start : Nat} :
    Stands contents (tokens ++ List.replicate count .any) r start ↔
      Stands contents tokens r start ∧ start + (tokens.length + count) ≤ r.len := by
  have hliteral : ∀ (i : Nat) (b : UInt8),
      (tokens ++ List.replicate count .any)[i]? = some (.byte b) ↔ tokens[i]? = some (.byte b) := by
    intro i b
    rw [List.getElem?_append, List.getElem?_replicate]
    split
    · rfl
    · next hi =>
      have hnone : tokens[i]? = none := List.getElem?_eq_none (by omega)
      rw [hnone]
      split <;> simp
  simp only [Stands, hliteral, List.length_append, List.length_replicate]
  constructor
  · rintro ⟨hroom, hall⟩
    exact ⟨⟨by omega, hall⟩, hroom⟩
  · rintro ⟨⟨-, hall⟩, hroom⟩
    exact ⟨hroom, hall⟩

/-- Where every chunk of a region was read, all places where the pattern stands are found. -/
theorem mem_regionStarts_of_read (h : Answers m config contents r)
    (hread : ∀ k < chunkCount config r, ChunkRead m config r k)
    (hs : Signature.Compiles tokens s) {start : Nat} :
    start ∈ regionStarts m config r s ↔ Stands contents tokens r start := by
  rw [mem_regionStarts h hs, and_iff_left_iff_imp]
  exact fun _ k hk _ _ => hread k hk

/-- The padded signature is found at the starts that leave room for its padding. -/
theorem regionStarts_padded (h : Answers m config contents r)
    (hread : ∀ k < chunkCount config r, ChunkRead m config r k)
    (hs : Signature.Compiles tokens s) :
    regionStarts m config r s.padded =
      (regionStarts m config r s).filter fun start => start + s.paddedLen ≤ r.len := by
  have hlen : tokens.length + (s.paddedLen - tokens.length) = s.paddedLen := by
    have hpadded := hs.paddedLen_eq
    omega
  refine (pairwise_regionStarts h hs.padded).eq_of_mem_iff
    ((pairwise_regionStarts h hs).filter _) ?_
  intro start
  rw [mem_regionStarts_of_read h hread hs.padded, stands_append_any, hlen, List.mem_filter,
    mem_regionStarts_of_read h hread hs, decide_eq_true_eq]

/-! ## Starts that a pass finds -/

/-- In whatever group a signature is looked for, a pass finds it in the region at these
starts, in their order. -/
def FoundAt (m : Source) (config : Config) (r : Region) (s : Signature) (found : List Nat) :
    Prop :=
  ∀ signatures, s ∈ signatures →
    (windows m config (Pass.overlap signatures) r).flatMap (Scan.found s r) =
      found.map (Match.ofStart r)

theorem foundAt_regionStarts (h : Answers m config contents r) (s : Signature) :
    FoundAt m config r s (regionStarts m config r s) := by
  intro signatures hmem
  rw [flatMap_found_windows m config r (rawLen_le_overlap hmem), flatMap_chunkMatches h]

end Scan

namespace Signature

open Scan

/-- Every text that compiles has a padded text, which is read as its tokens with wildcards
behind them and compiles, with the same offset, to the same signature but for the text and
the number of tokens; and the text that the signature keeps compiles to it again. In a region
of which every chunk was read, a pass finds the signature of the padded text exactly at the
starts of the first one from which on the padded length fits in the region. -/
theorem padding_stable (text : String) (offset : Option UInt32) (s : Signature)
    (hc : compile text offset = .ok s) :
    ∃ tokens, Pattern.parse text = .ok tokens
      ∧ Pattern.parse s.paddedPattern =
          .ok (tokens ++ List.replicate (s.paddedLen - tokens.length) .any)
      ∧ compile s.paddedPattern offset =
          .ok { s with pattern := s.paddedPattern, rawLen := s.paddedLen }
      ∧ s.padded.paddedPattern = s.paddedPattern
      ∧ (∃ kept, compile s.pattern offset = .ok kept ∧ kept.isEquivalent s = true)
      ∧ ∀ m config contents r, Answers m config contents r →
          (∀ k < chunkCount config r, ChunkRead m config r k) →
          ∃ found, FoundAt m config r s found
            ∧ FoundAt m config r s.padded (found.filter fun start => start + s.paddedLen ≤ r.len)
            ∧ found.Pairwise (· < ·)
            ∧ ∀ start, start ∈ found ↔ Stands contents tokens r start := by
  obtain ⟨first, rest, hp, -⟩ := compile_eq_ok_iff.1 hc
  have hs : Compiles (first :: rest) s := ⟨text, offset, hp, hc⟩
  refine ⟨first :: rest, hp, hs.parse_paddedPattern, compile_paddedPattern hc,
    paddedPattern_padded s, ⟨s, compile_pattern hc, isEquivalent_iff.2 ⟨rfl, rfl, rfl, rfl⟩⟩, ?_⟩
  intro m config contents r h hread
  refine ⟨regionStarts m config r s, foundAt_regionStarts h s, ?_, pairwise_regionStarts h hs,
    fun start => mem_regionStarts_of_read h hread hs⟩
  rw [← regionStarts_padded h hread hs]
  exact foundAt_regionStarts h s.padded

/-- The addresses 1 to 8, each of which holds itself, in four chunks that are all read. -/
theorem read_low_addresses :
    ∀ k < chunkCount ⟨2, false⟩ ⟨1, 8, .code⟩,
      ChunkRead (.ofContents UInt64.toUInt8) ⟨2, false⟩ ⟨1, 8, .code⟩ k
  | 0, _ | 1, _ | 2, _ | 3, _ => ⟨_, rfl⟩
  | k + 4, h => absurd h (by rw [lt_chunkCount_iff]; show ¬ (k + 4) * 2 < 8; omega)

/-- There `03 ?? 05` is found at address 3, but not with the five places that fill up its
word: they reach past the end. -/
theorem padding_stable_gapSignature :
    compile "03 ?? 05" none = .ok gapSignature
    ∧ compile "03 ?? 05 ?? ?? ?? ?? ??" none = .ok gapSignature.padded
    ∧ ∃ found, FoundAt (.ofContents UInt64.toUInt8) ⟨2, false⟩ ⟨1, 8, .code⟩ gapSignature found
      ∧ 2 ∈ found
      ∧ FoundAt (.ofContents UInt64.toUInt8) ⟨2, false⟩ ⟨1, 8, .code⟩ gapSignature.padded
        (found.filter fun start => start + 8 ≤ 8) := by
  have hc : compile "03 ?? 05" none = .ok gapSignature := by decide
  obtain ⟨tokens, hp, -, hpadded, -, -, hscan⟩ := padding_stable "03 ?? 05" none gapSignature hc
  obtain ⟨found, hfound, hfoundPadded, -, hmem⟩ :=
    hscan (.ofContents UInt64.toUInt8) ⟨2, false⟩ UInt64.toUInt8 ⟨1, 8, .code⟩
      (answers_ofContents _ _ _) read_low_addresses
  obtain rfl : [.byte 3, .any, .byte 5] = tokens := Except.ok.inj hp
  have hstands : Stands UInt64.toUInt8 [.byte 3, .any, .byte 5] ⟨1, 8, .code⟩ 2 := by
    refine ⟨by decide, ?_⟩
    intro i b hb
    match i with
    | 0 => simpa using hb
    | 1 => simp at hb
    | 2 => simpa using hb
    | i + 3 => simp at hb
  exact ⟨hc, hpadded, found, hfound, (hmem 2).2 hstands, hfoundPadded⟩

end Signature

end SigScan
