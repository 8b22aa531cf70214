/-
SigScan.Proofs.Text.ByteOrder — names in the order of their bytes.

Names are compared character by character. Written as UTF-8 they compare byte by byte in
the same way (`bytes_lt_iff`). The code of a character has a first byte, which tells how
many bytes follow and holds the highest digits, and then a digit to the base of 64 in each
byte, the highest first (`utf8EncodeChar_eq`). So codes of one width compare like the
numbers of their characters (`lead_lt_or_trail_lt`), and a wider code has a greater first
byte (`lead_add_mark_lt`).
-/
import SigScan.NameTable

namespace SigScan.Text.Utf8

/-- The bytes of a text as UTF-8. -/
def bytes (s : String) : List UInt8 :=
  s.toUTF8.data.toList

/-- The bytes of a text are those of its characters one after another. -/
theorem bytes_eq (s : String) : bytes s = s.toList.flatMap String.utf8EncodeChar := by
  obtain ⟨cs, rfl⟩ : ∃ cs, s = String.ofList cs := ⟨s.toList, String.ofList_toList.symm⟩
  rw [bytes, String.toUTF8_eq_toByteArray, String.toByteArray_ofList, String.toList_ofList,
    List.utf8Encode, List.toList_data_toByteArray]

/-! ## Digits -/

/-- What is left of a number without its last `k` digits to the base of 64. -/
def lead : Nat → Nat → Nat
  | 0, v => v
  | k + 1, v => lead k (v / 64)

/-- The last `k` digits of a number to the base of 64, each in a byte that only follows a
first one. -/
def trail : Nat → Nat → List UInt8
  | 0, _ => []
  | k + 1, v => trail k (v / 64) ++ [UInt8.ofNat (v % 64 + 128)]

theorem ofNat_cons_lt {n k : Nat} (hk : k < 256) (h : n < k) (xs ys : List UInt8) :
    UInt8.ofNat n :: xs < UInt8.ofNat k :: ys :=
  List.cons_lt_cons_iff.2 (.inl ((UInt8.ofNat_lt_iff_lt (Nat.lt_trans h hk) hk).2 h))

theorem append_lt_append (xs : List UInt8) {ys zs : List UInt8} (h : ys < zs) :
    xs ++ ys < xs ++ zs := by
  induction xs with
  | nil => exact h
  | cons x xs ih => exact List.cons_lt_cons_iff.2 (.inr ⟨rfl, ih⟩)

/-- Of two numbers the lower one has the lower digits, from the highest one on. -/
theorem lead_lt_or_trail_lt (k : Nat) {v w : Nat} (h : v < w) :
    lead k v < lead k w ∨
      lead k v = lead k w ∧ ∀ xs ys, trail k v ++ xs < trail k w ++ ys := by
  induction k generalizing v w with
  | zero => exact .inl h
  | succ k ih =>
    have hdigits : v / 64 < w / 64 ∨ v / 64 = w / 64 ∧ v % 64 < w % 64 := by omega
    simp only [lead, trail, List.append_assoc]
    rcases hdigits with hlt | ⟨heq, hlt⟩
    · exact (ih hlt).imp_right fun ⟨hlead, htrail⟩ => ⟨hlead, fun xs ys => htrail _ _⟩
    · rw [heq]
      exact .inr ⟨rfl, fun xs ys => append_lt_append _ (ofNat_cons_lt (by omega) (by omega) xs ys)⟩

/-! ## Codes -/

/-- The number of bytes that follow the first byte of the code of a character. -/
def width (v : Nat) : Nat :=
  if v ≤ 127 then 0 else if v ≤ 2047 then 1 else if v ≤ 65535 then 2 else 3

/-- What a first byte is counted from when `k` bytes follow. -/
def mark : Nat → Nat
  | 0 => 0
  | 1 => 192
  | 2 => 224
  | _ => 240

/-- Characters have numbers below this one. -/
def limit : Nat := 0x110000

/-- The width of a code follows from its size. -/
theorem width_cases {v : Nat} (h : v < limit) :
    (width v = 0 ∧ v < 128) ∨ (width v = 1 ∧ 128 ≤ v ∧ v < 2048)
      ∨ (width v = 2 ∧ 2048 ≤ v ∧ v < 65536) ∨ (width v = 3 ∧ 65536 ≤ v ∧ v < 0x110000) := by
  unfold width limit at *
  split
  · omega
  · split
    · omega
    · split <;> omega

theorem toNat_lt_limit (c : Char) : c.val.toNat < limit := by
  have hvalid : c.val.toNat < 0xd800 ∨ 0xdfff < c.val.toNat ∧ c.val.toNat < 0x110000 := c.valid
  unfold limit
  omega

/-- A character is written as a lead, with the mark of its width, and a trail. -/
theorem utf8EncodeChar_eq (c : Char) :
    String.utf8EncodeChar c =
      UInt8.ofNat (lead (width c.val.toNat) c.val.toNat + mark (width c.val.toNat)) ::
        trail (width c.val.toNat) c.val.toNat := by
  have hlimit := toNat_lt_limit c
  simp only [String.utf8EncodeChar]
  generalize c.val.toNat = v at *
  rcases width_cases hlimit with ⟨hw, hv⟩ | ⟨hw, hv, hv'⟩ | ⟨hw, hv, hv'⟩ | ⟨hw, hv, hv'⟩
  · rw [hw, if_pos (by omega)]
    rfl
  · have h₁ : v / 64 % 32 = v / 64 := by omega
    rw [hw, if_neg (by omega), if_pos (by omega), h₁]
    rfl
  · have h₁ : v / 4096 % 16 = v / 64 / 64 := by omega
    rw [hw, if_neg (by omega), if_neg (by omega), if_pos (by omega), h₁]
    rfl
  · have h₁ : v / 262144 % 8 = v / 64 / 64 / 64 := by omega
    have h₂ : v / 4096 % 64 = v / 64 / 64 % 64 := by omega
    rw [hw, if_neg (by omega), if_neg (by omega), if_neg (by omega), h₁, h₂]
    rfl

theorem lead_add_mark_lt_256 {v : Nat} (h : v < limit) :
    lead (width v) v + mark (width v) < 256 := by
  rcases width_cases h with ⟨hw, hv⟩ | ⟨hw, hv, hv'⟩ | ⟨hw, hv, hv'⟩ | ⟨hw, hv, hv'⟩ <;>
    simp only [hw, lead, mark] <;> omega

/-- A code with more bytes has a greater first byte. -/
theorem lead_add_mark_lt {v w : Nat} (hw : w < limit) (h : v < w) (hne : width v ≠ width w) :
    lead (width v) v + mark (width v) < lead (width w) w + mark (width w) := by
  have hv : v < limit := Nat.lt_trans h hw
  rcases width_cases hv with ⟨hkv, hv⟩ | ⟨hkv, hv, hv'⟩ | ⟨hkv, hv, hv'⟩ | ⟨hkv, hv, hv'⟩ <;>
    rcases width_cases hw with ⟨hkw, hw⟩ | ⟨hkw, hw, hw'⟩ | ⟨hkw, hw, hw'⟩ | ⟨hkw, hw, hw'⟩ <;>
    simp only [hkv, hkw, lead, mark] at * <;> omega

/-- The code of a lower character is less, whatever follows either of them. -/
theorem utf8EncodeChar_append_lt {c d : Char} (h : c < d) (xs ys : List UInt8) :
    String.utf8EncodeChar c ++ xs < String.utf8EncodeChar d ++ ys := by
  have hlt : c.val.toNat < d.val.toNat := h
  have hd := toNat_lt_limit d
  rw [utf8EncodeChar_eq, utf8EncodeChar_eq, List.cons_append, List.cons_append]
  by_cases hwidth : width c.val.toNat = width d.val.toNat
  · rw [hwidth]
    rcases lead_lt_or_trail_lt (width d.val.toNat) hlt with hlead | ⟨hlead, htrail⟩
    · exact ofNat_cons_lt (lead_add_mark_lt_256 hd) (Nat.add_lt_add_right hlead _) _ _
    · rw [hlead]
      exact List.cons_lt_cons_iff.2 (.inr ⟨rfl, htrail xs ys⟩)
  · exact ofNat_cons_lt (lead_add_mark_lt_256 hd) (lead_add_mark_lt hd hlt hwidth) _ _

/-! ## Texts -/

/-- The first characters that differ decide, for characters as for bytes. -/
theorem flatMap_utf8EncodeChar_lt {cs ds : List Char} (h : cs < ds) :
    cs.flatMap String.utf8EncodeChar < ds.flatMap String.utf8EncodeChar := by
  induction cs generalizing ds with
  | nil =>
    cases ds with
    | nil => exact absurd h (List.lt_irrefl [])
    | cons d ds =>
      rw [List.flatMap_nil, List.flatMap_cons, utf8EncodeChar_eq]
      exact List.nil_lt_cons _ _
  | cons c cs ih =>
    cases ds with
    | nil => exact absurd h (List.not_lt_nil _)
    | cons d ds =>
      rw [List.flatMap_cons, List.flatMap_cons]
      rcases List.cons_lt_cons_iff.1 h with hlt | ⟨rfl, hlt⟩
      · exact utf8EncodeChar_append_lt hlt _ _
      · exact append_lt_append _ (ih hlt)

theorem bytes_lt_of_lt {s t : String} (h : s < t) : bytes s < bytes t := by
  rw [bytes_eq, bytes_eq]
  exact flatMap_utf8EncodeChar_lt (String.lt_iff.1 h)

/-- Texts compare as their bytes do. -/
theorem bytes_lt_iff {s t : String} : bytes s < bytes t ↔ s < t := by
  refine ⟨fun h => ?_, bytes_lt_of_lt⟩
  by_cases hlt : s < t
  · exact hlt
  · by_cases heq : s = t
    · exact absurd h (heq ▸ List.lt_irrefl _)
    · have hts : t < s := Classical.byContradiction fun hn =>
        heq (String.le_antisymm (String.not_lt.1 hn) (String.not_lt.1 hlt))
      exact absurd h (List.lt_asymm (bytes_lt_of_lt hts))

end SigScan.Text.Utf8
