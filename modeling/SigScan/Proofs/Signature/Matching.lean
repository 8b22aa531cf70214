/-
SigScan.Proofs.Signature.Matching — what a compiled signature matches.

The masked words of a signature accept memory exactly where every literal byte of the
pattern stands at its place (`acceptsFrom_pack`). A signature that was compiled from a
pattern therefore matches where its tokens fit exactly if each literal byte is there
(`Compiles.matchesAt_iff`); the search for the first literal byte adds no condition, and
the filling of the last word takes none away.
-/
import SigScan.Signature
import SigScan.Proofs.Memory.Lanes

namespace SigScan

open Bytes

/-! ## One word -/

namespace MaskedWord

theorem lane_data_ofTokens (tokens : Pattern) {k : Nat} (hk : k < 8) :
    lane (ofTokens tokens).data k = (tokens[k]?.map dataByte).getD 0 := by
  rw [ofTokens, lane_word _ hk, List.getD_eq_getElem?_getD, List.getElem?_map]

theorem lane_mask_ofTokens (tokens : Pattern) {k : Nat} (hk : k < 8) :
    lane (ofTokens tokens).mask k = (tokens[k]?.map maskByte).getD 0 := by
  rw [ofTokens, lane_word _ hk, List.getD_eq_getElem?_getD, List.getElem?_map]

/-- A word accepts another exactly if no lane differs where its mask is set. -/
theorem accepts_iff_lanes {w : MaskedWord} {word : UInt64} :
    w.accepts word = true ↔
      ∀ k < 8, (lane word k ^^^ lane w.data k) &&& lane w.mask k = 0 := by
  rw [accepts, beq_iff_eq, eq_zero_iff_lanes]
  simp only [lane_and, lane_xor]

theorem xor_and_full {a b : UInt8} : (a ^^^ b) &&& 0xFF = 0 ↔ a = b := by
  rw [show (0xFF : UInt8) = -1 from rfl, UInt8.and_neg_one, UInt8.xor_eq_zero_iff]

/-- A word packed from tokens accepts exactly the words with its literal bytes. -/
theorem accepts_ofTokens {tokens : Pattern} {word : UInt64} :
    (ofTokens tokens).accepts word = true ↔
      ∀ k < 8, ∀ b, tokens[k]? = some (.byte b) → lane word k = b := by
  rw [accepts_iff_lanes]
  refine forall_congr' fun k => forall_congr' fun hk => ?_
  rw [lane_data_ofTokens _ hk, lane_mask_ofTokens _ hk]
  cases ht : tokens[k]? with
  | none => simp
  | some t =>
    cases t with
    | any => simp [maskByte]
    | byte b => simp [maskByte, dataByte, xor_and_full]

end MaskedWord

/-! ## All words of a pattern -/

namespace Signature

/-- The first words of a pattern decide the tokens that they hold. -/
theorem acceptsFrom_firstWords (count : Nat) (tokens : Pattern) (bytes : ByteArray)
    (start : Nat) :
    acceptsFrom (Pattern.firstWords count tokens) bytes start = true ↔
      ∀ i < 8 * count, ∀ b, tokens[i]? = some (.byte b) → atOrZero bytes (start + i) = b := by
  induction count generalizing tokens start with
  | zero => simp [Pattern.firstWords, acceptsFrom]
  | succ n ih =>
    rw [Pattern.firstWords, acceptsFrom, Bool.and_eq_true, MaskedWord.accepts_ofTokens, ih]
    constructor
    · rintro ⟨hword, hrest⟩ i hi b hb
      by_cases h8 : i < 8
      · rw [← lane_wordAt bytes start h8]
        exact hword i h8 b (by rw [List.getElem?_take_of_lt h8, hb])
      · have hd : (tokens.drop 8)[i - 8]? = some (.byte b) := by
          rw [List.getElem?_drop, ← hb, show 8 + (i - 8) = i by omega]
        have := hrest (i - 8) (by omega) b hd
        rwa [show start + 8 + (i - 8) = start + i by omega] at this
    · intro h
      constructor
      · intro k hk b hb
        rw [lane_wordAt bytes start hk]
        exact h k (by omega) b (by rwa [List.getElem?_take_of_lt hk] at hb)
      · intro i hi b hb
        rw [List.getElem?_drop] at hb
        rw [Nat.add_assoc]
        exact h (8 + i) (by omega) b hb

/-- Packed words accept bytes exactly if each literal byte stands in its place. -/
theorem acceptsFrom_pack {tokens : Pattern} {bytes : ByteArray} {start : Nat} :
    acceptsFrom tokens.pack bytes start = true ↔
      ∀ i b, tokens[i]? = some (.byte b) → atOrZero bytes (start + i) = b := by
  rw [Pattern.pack, acceptsFrom_firstWords]
  constructor
  · intro h i b hb
    have hi : i < tokens.length := (List.getElem?_eq_some_iff.1 hb).1
    exact h i (by omega) b hb
  · intro h i _ b hb
    exact h i b hb

end Signature

/-! ## The first literal byte -/

/-- The first literal byte is a literal byte of the pattern. -/
theorem Pattern.getElem?_of_anchor?_eq_some {tokens : Pattern} {i : Nat} {b : UInt8}
    (h : tokens.anchor? = some (i, b)) : tokens[i]? = some (.byte b) := by
  induction tokens generalizing i with
  | nil => simp [Pattern.anchor?] at h
  | cons t ts ih =>
    cases t with
    | byte x =>
      simp only [Pattern.anchor?, Option.some.injEq, Prod.mk.injEq] at h
      obtain ⟨rfl, rfl⟩ := h
      rfl
    | any =>
      simp only [Pattern.anchor?, Option.map_eq_some_iff, Prod.mk.injEq, Prod.exists] at h
      obtain ⟨j, b', hj, rfl, rfl⟩ := h
      simpa using ih hj

/-! ## Compiled signatures -/

namespace Signature

/-- `s` is what compiling a text of these tokens gives. -/
def Compiles (tokens : Pattern) (s : Signature) : Prop :=
  ∃ text offset, Pattern.parse text = .ok tokens ∧ compile text offset = .ok s

/-- A signature that compiling some text gives. -/
def IsCompiled (s : Signature) : Prop :=
  ∃ text offset, compile text offset = .ok s

/-- What comes from a compilation was compiled from tokens. -/
theorem IsCompiled.exists_tokens {s : Signature} (h : s.IsCompiled) :
    ∃ tokens, Compiles tokens s := by
  obtain ⟨text, offset, hc⟩ := h
  obtain ⟨first, rest, hp, -⟩ := compile_eq_ok_iff.1 hc
  exact ⟨first :: rest, text, offset, hp, hc⟩

namespace Compiles

variable {tokens : Pattern} {s : Signature}

theorem isCompiled (h : Compiles tokens s) : s.IsCompiled := by
  obtain ⟨text, offset, -, hc⟩ := h
  exact ⟨text, offset, hc⟩

/-- The fields that a search uses, read off the tokens. -/
theorem fields (h : Compiles tokens s) :
    tokens ≠ [] ∧ s.words = tokens.pack ∧ s.rawLen = tokens.length
      ∧ tokens.anchor? = some (s.anchorIndex, s.anchorByte) := by
  obtain ⟨text, offset, hp, hc⟩ := h
  obtain ⟨first, rest, hp', ha, -, hw, hr, -⟩ := compile_eq_ok_iff.1 hc
  obtain rfl : tokens = first :: rest := by simpa [hp] using hp'
  exact ⟨by simp, hw, by simpa using hr, ha⟩

theorem rawLen_eq (h : Compiles tokens s) : s.rawLen = tokens.length :=
  h.fields.2.2.1

theorem rawLen_pos (h : Compiles tokens s) : 0 < s.rawLen := by
  rw [h.rawLen_eq]
  exact List.length_pos_iff.2 h.fields.1

/-- Where the tokens fit, a signature matches exactly if every literal byte is there. -/
theorem matchesAt_iff (h : Compiles tokens s) {bytes : ByteArray} {start : Nat}
    (hfit : start + s.rawLen ≤ bytes.size) :
    s.matchesAt bytes start = true ↔
      ∀ i b, tokens[i]? = some (.byte b) → at? bytes (start + i) = some b := by
  obtain ⟨-, hw, hr, ha⟩ := h.fields
  rw [matchesAt, Bool.and_eq_true, holdsAt_eq_true_iff, hw, acceptsFrom_pack]
  -- Inside the bytes a place holds `b` exactly if it reads as `b`.
  have hin : ∀ i b, tokens[i]? = some (.byte b) →
      (atOrZero bytes (start + i) = b ↔ at? bytes (start + i) = some b) := by
    intro i b hb
    have hi : i < tokens.length := (List.getElem?_eq_some_iff.1 hb).1
    exact atOrZero_eq_iff (by omega)
  constructor
  · rintro ⟨-, hall⟩ i b hb
    exact (hin i b hb).1 (hall i b hb)
  · intro hall
    refine ⟨hall _ _ (Pattern.getElem?_of_anchor?_eq_some ha), fun i b hb => ?_⟩
    exact (hin i b hb).2 (hall i b hb)

end Compiles

end Signature

end SigScan
