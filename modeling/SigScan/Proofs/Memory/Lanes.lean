/-
SigScan.Proofs.Memory.Lanes — words compared lane by lane.

A 64-bit word is seen through its eight lanes. The bitwise operations that a masked
comparison is made of act on each lane by itself (`lane_and`, `lane_xor`), a word is zero
exactly if all of its lanes are (`eq_zero_iff_lanes`), so a word is determined by its lanes
(`eq_iff_lanes`), and the lanes of a word of memory are the bytes it was read from
(`lane_wordAt`).
-/
import SigScan.Memory.Bytes

namespace SigScan.Bytes

/-- Bit `i` of lane `k` is bit `8 * k + i` of the word. -/
theorem testBit_lane (w : UInt64) (k i : Nat) :
    (lane w k).toNat.testBit i = (decide (i < 8) && w.toNat.testBit (8 * k + i)) := by
  rw [lane, UInt8.toNat_ofNat', Nat.testBit_mod_two_pow, Nat.testBit_shiftRight]

theorem lane_and (a b : UInt64) (k : Nat) : lane (a &&& b) k = lane a k &&& lane b k := by
  apply UInt8.toNat_inj.1
  apply Nat.eq_of_testBit_eq
  intro i
  rw [UInt8.toNat_and, Nat.testBit_and, testBit_lane, testBit_lane, testBit_lane, UInt64.toNat_and,
    Nat.testBit_and]
  cases decide (i < 8) <;> simp

theorem lane_xor (a b : UInt64) (k : Nat) : lane (a ^^^ b) k = lane a k ^^^ lane b k := by
  apply UInt8.toNat_inj.1
  apply Nat.eq_of_testBit_eq
  intro i
  rw [UInt8.toNat_xor, Nat.testBit_xor, testBit_lane, testBit_lane, testBit_lane, UInt64.toNat_xor,
    Nat.testBit_xor]
  cases decide (i < 8) <;> simp

theorem eq_zero_iff_lanes {w : UInt64} : w = 0 ↔ ∀ k < 8, lane w k = 0 := by
  constructor
  · rintro rfl k -
    simp [lane]
  · intro h
    apply UInt64.toNat_inj.1
    apply Nat.eq_of_testBit_eq
    intro j
    -- Bits from the sixty-fourth on are zero in any word; the others stand in some lane.
    by_cases hj : j < 64
    · have hk := congrArg (fun b => b.toNat.testBit (j % 8)) (h (j / 8) (by omega))
      have hm : j % 8 < 8 := by omega
      have hd : 8 * (j / 8) + j % 8 = j := by omega
      simpa [testBit_lane, hm, hd] using hk
    · have hw : w.toNat < 2 ^ j :=
        Nat.lt_of_lt_of_le w.toNat_lt (Nat.pow_le_pow_right (by omega) (by omega))
      simp [Nat.testBit_lt_two_pow hw]

/-- Words with the same lanes are the same. -/
theorem eq_iff_lanes {a b : UInt64} : a = b ↔ ∀ k < 8, lane a k = lane b k := by
  rw [← UInt64.xor_eq_zero_iff, eq_zero_iff_lanes]
  simp only [lane_xor, UInt8.xor_eq_zero_iff]

theorem lane_wordAt (bytes : ByteArray) (start : Nat) {k : Nat} (hk : k < 8) :
    lane (wordAt bytes start) k = atOrZero bytes (start + k) := by
  rw [wordAt, wordFrom_eq_word, lane_word _ hk]
  simp [List.getD, hk]

end SigScan.Bytes
