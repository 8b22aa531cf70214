/-
SigScan.Memory.Bytes — byte arrays read by place and as little-endian words.

A byte array is seen through `at?`, the byte at a place if there is one. Words are put
together from bytes with the first byte lowest; places past the end count as zero bytes
where a whole word is taken.

Main statements: `at?` of an appended and of a cut array (`at?_append`, `at?_extract`),
and each byte of a word is one of its lanes (`lane_word`).
-/

namespace SigScan.Bytes

/-! ## Bytes by place -/

/-- The byte at place `i`, if the array reaches that far. -/
def at? (bytes : ByteArray) (i : Nat) : Option UInt8 :=
  if h : i < bytes.size then some bytes[i] else none

/-- The byte at place `i`, zero past the end. -/
def atOrZero (bytes : ByteArray) (i : Nat) : UInt8 :=
  if h : i < bytes.size then bytes[i] else 0

/-- Whether byte `b` stands at place `i`. -/
@[inline] def holdsAt (bytes : ByteArray) (i : Nat) (b : UInt8) : Bool :=
  if h : i < bytes.size then bytes[i] == b else false

/-- At most `size` bytes from `start` on. -/
def slice (bytes : ByteArray) (start size : Nat) : ByteArray :=
  bytes.extract start (start + size)

/-- The bytes in order. -/
def toList (bytes : ByteArray) : List UInt8 :=
  bytes.data.toList

theorem at?_eq_getElem? (bytes : ByteArray) (i : Nat) : at? bytes i = (toList bytes)[i]? := by
  unfold at? toList
  by_cases h : i < bytes.size
  · have h' : i < bytes.data.toList.length := by simpa using h
    rw [dif_pos h, List.getElem?_eq_getElem h']
    simp [ByteArray.getElem_eq_getElem_data]
  · have h' : bytes.data.toList.length ≤ i := by
      simpa using Nat.le_of_not_lt h
    rw [dif_neg h, List.getElem?_eq_none h']

theorem at?_append (a b : ByteArray) (i : Nat) :
    at? (a ++ b) i = if i < a.size then at? a i else at? b (i - a.size) := by
  have ha : a.data.toList.length = a.size := by simp
  simp only [at?_eq_getElem?, toList, ByteArray.data_append, Array.toList_append]
  by_cases h : i < a.size
  · rw [if_pos h, List.getElem?_append_left (by omega)]
  · rw [if_neg h, List.getElem?_append_right (by omega), ha]

theorem at?_extract (bytes : ByteArray) (start stop i : Nat) :
    at? (bytes.extract start stop) i =
      if i < stop - start then at? bytes (start + i) else none := by
  simp only [at?_eq_getElem?, toList, ByteArray.data_extract, Array.toList_extract,
    List.extract_eq_take_drop, List.getElem?_take, List.getElem?_drop]

theorem holdsAt_eq_true_iff {bytes : ByteArray} {i : Nat} {b : UInt8} :
    holdsAt bytes i b = true ↔ at? bytes i = some b := by
  unfold holdsAt at?
  by_cases h : i < bytes.size <;> simp [h]

theorem atOrZero_eq (bytes : ByteArray) (i : Nat) : atOrZero bytes i = (at? bytes i).getD 0 := by
  unfold atOrZero at?
  by_cases h : i < bytes.size <;> simp [h]

/-- Inside the array a place reads as the byte that it holds. -/
theorem atOrZero_eq_iff {bytes : ByteArray} {i : Nat} (h : i < bytes.size) {b : UInt8} :
    atOrZero bytes i = b ↔ at? bytes i = some b := by
  simp [atOrZero, at?, h]

/-! ## Words -/

/-- The word whose lanes are the given bytes, the first byte lowest. -/
def word : List UInt8 → UInt64
  | [] => 0
  | b :: bs => b.toUInt64 ||| (word bs <<< 8)

/-- The byte of a word in lane `k`, counted from the lowest. -/
def lane (w : UInt64) (k : Nat) : UInt8 :=
  UInt8.ofNat (w.toNat >>> (8 * k))

/-- The word of `count` bytes from `start` on. -/
def wordFrom (bytes : ByteArray) : Nat → Nat → UInt64
  | 0, _ => 0
  | count + 1, start =>
    (atOrZero bytes start).toUInt64 ||| (wordFrom bytes count (start + 1) <<< 8)

/-- The eight bytes from `start` on as one word. -/
def wordAt (bytes : ByteArray) (start : Nat) : UInt64 :=
  wordFrom bytes 8 start

theorem wordFrom_eq_word (bytes : ByteArray) (count start : Nat) :
    wordFrom bytes count start =
      word ((List.range count).map fun k => atOrZero bytes (start + k)) := by
  induction count generalizing start with
  | zero => rfl
  | succ n ih =>
    rw [wordFrom, ih, List.range_succ_eq_map, List.map_cons, List.map_map, word]
    simp only [Function.comp_def, Nat.add_zero, Nat.succ_eq_add_one, Nat.add_comm 1, Nat.add_assoc]

/-- Putting a byte below a word multiplies the word by 256; what leaves 64 bits is lost. -/
theorem toNat_word_cons (b : UInt8) (bs : List UInt8) :
    (word (b :: bs)).toNat = b.toNat + 256 * ((word bs).toNat % 0x100000000000000) := by
  have hb := b.toNat_lt
  have h8 : (8 : UInt64).toNat % 64 = 8 := by decide
  have hs : (word bs).toNat <<< 8 % 2 ^ 64 = ((word bs).toNat % 0x100000000000000) <<< 8 := by
    simp only [Nat.shiftLeft_eq]
    omega
  rw [word, UInt64.toNat_or, UInt64.toNat_shiftLeft, h8, hs, UInt8.toNat_toUInt64, Nat.or_comm,
    ← Nat.shiftLeft_add_eq_or_of_lt (by simpa using hb), Nat.shiftLeft_eq]
  omega

/-- Lane `k + 1` of a number is lane `k` of what stands above its lowest byte. -/
theorem add_shiftRight_succ {b : Nat} (h : b < 256) (n k : Nat) :
    (b + 256 * n) >>> (8 * (k + 1)) = n >>> (8 * k) := by
  have hd : (b + 256 * n) >>> 8 = n := by
    rw [Nat.shiftRight_eq_div_pow]
    omega
  rw [Nat.mul_succ, Nat.add_comm (8 * k), Nat.shiftRight_add, hd]

/-- Bits from the fifty-sixth on are in no lane below the seventh. -/
theorem mod_shiftRight_mod (n : Nat) {k : Nat} (h : k < 7) :
    (n % 0x100000000000000) >>> (8 * k) % 256 = n >>> (8 * k) % 256 := by
  obtain ⟨d, hd⟩ : ∃ d, 0x100000000000000 = 2 ^ (8 * k) * (256 * d) := by
    refine ⟨2 ^ (8 * (6 - k)), ?_⟩
    have h56 : 8 * k + (8 + 8 * (6 - k)) = 56 := by omega
    rw [show 256 = 2 ^ 8 from rfl, ← Nat.pow_add, ← Nat.pow_add, h56]
  rw [Nat.shiftRight_eq_div_pow, Nat.shiftRight_eq_div_pow, hd, Nat.mod_mul_right_div_self,
    Nat.mod_mul_right_mod]

/-- The bytes that a word was put together from are its lanes. -/
theorem lane_word (bs : List UInt8) {k : Nat} (h : k < 8) : lane (word bs) k = bs.getD k 0 := by
  induction bs generalizing k with
  | nil => simp [lane, word]
  | cons b bs ih =>
    have hb : b.toNat < 256 := b.toNat_lt
    apply UInt8.toNat_inj.1
    rw [lane, toNat_word_cons, UInt8.toNat_ofNat']
    cases k with
    | zero =>
      rw [Nat.mul_zero, Nat.shiftRight_zero, List.getD_cons_zero]
      omega
    | succ k =>
      rw [List.getD_cons_succ, ← ih (by omega), add_shiftRight_succ hb, lane, UInt8.toNat_ofNat',
        show (2 : Nat) ^ 8 = 256 from rfl, mod_shiftRight_mod _ (by omega)]

end SigScan.Bytes
