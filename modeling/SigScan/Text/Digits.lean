/-
SigScan.Text.Digits — numbers as sequences of digit values.

The same laws serve decimal and hexadecimal text. A digit is a number below the base;
sequences begin with the most significant digit. A number has one sequence without
leading zeros, and one for every fixed width, which keeps it up to the size of that
width.

Main statements: a number is what its digits stand for (`value_ofNat`, `value_fixed`),
every digit is below the base (`lt_of_mem_ofNat`, `lt_of_mem_fixed`), and a number may be
taken no further than a limit digit by digit (`valueUpTo_eq`). A number that is read only
until it has reached a limit is the whole number if that is below (`valueUntil_eq_of_lt`).
-/

namespace SigScan.Text.Digits

/-- The number that a sequence of digits stands for. -/
def value (base : Nat) (ds : List Nat) : Nat :=
  ds.foldl (fun n d => base * n + d) 0

/-- The number that a sequence of digits stands for, or `limit` if it is larger. The numbers
on the way stay small, however many digits there are. -/
def valueUpTo (limit base : Nat) (ds : List Nat) : Nat :=
  ds.foldl (fun n d => min limit (base * n + d)) 0

/-- The number that a sequence of digits stands for, or that of its beginning that has reached
`limit`: digits behind it do not count. -/
def valueUntil (limit base : Nat) (ds : List Nat) : Nat :=
  ds.foldl (fun n d => if n < limit then base * n + d else n) 0

/-- The digits of a number without leading zeros; zero has one digit. Below base two there
are no digits to speak of, and the number is its own. -/
def ofNat (base n : Nat) : List Nat :=
  if h : n < base ∨ base < 2 then [n]
  else
    have : n / base < n := Nat.div_lt_self (by omega) (by omega)
    ofNat base (n / base) ++ [n % base]

/-- How much a digit counts for that has `places` digits behind it. -/
def scale (base : Nat) : Nat → Nat
  | 0 => 1
  | places + 1 => base * scale base places

/-- The last `width` digits of a number. -/
def fixed (base : Nat) : Nat → Nat → List Nat
  | 0, _ => []
  | width + 1, n => fixed base width (n / base) ++ [n % base]

theorem value_append_singleton (base : Nat) (ds : List Nat) (d : Nat) :
    value base (ds ++ [d]) = base * value base ds + d := by
  simp [value]

/-- Zeros in front of a number do not count. -/
theorem value_zeros_append (base zeros : Nat) (ds : List Nat) :
    value base (List.replicate zeros 0 ++ ds) = value base ds := by
  induction zeros with
  | zero => rfl
  | succ n ih => simpa [List.replicate_succ, value] using ih

/-- A number that has reached the limit does not fall below it again. -/
theorem foldl_min (limit : Nat) {base : Nat} (hb : 0 < base) (ds : List Nat) (n : Nat) :
    ds.foldl (fun n d => min limit (base * n + d)) (min limit n) =
      min limit (ds.foldl (fun n d => base * n + d) n) := by
  induction ds generalizing n with
  | nil => rfl
  | cons d ds ih =>
    have hstep : min limit (base * min limit n + d) = min limit (base * n + d) := by
      rcases Nat.le_total limit n with h | h
      · have h1 : limit ≤ base * limit := Nat.le_mul_of_pos_left limit hb
        have h2 : base * limit ≤ base * n := Nat.mul_le_mul_left base h
        rw [Nat.min_eq_left h]
        omega
      · rw [Nat.min_eq_right h]
    rw [List.foldl_cons, List.foldl_cons, hstep, ih]

theorem valueUpTo_eq (limit : Nat) {base : Nat} (hb : 0 < base) (ds : List Nat) :
    valueUpTo limit base ds = min limit (value base ds) := by
  have h := foldl_min limit hb ds 0
  rwa [Nat.min_eq_right (Nat.zero_le limit)] at h

/-- Further digits do not make a number smaller. -/
theorem le_foldl {base : Nat} (hb : 0 < base) (n : Nat) (ds : List Nat) :
    n ≤ ds.foldl (fun n d => base * n + d) n := by
  induction ds generalizing n with
  | nil => exact Nat.le_refl n
  | cons d ds ih =>
    have h : n ≤ base * n := Nat.le_mul_of_pos_left n hb
    exact Nat.le_trans (Nat.le_trans h (Nat.le_add_right _ d)) (ih (base * n + d))

/-- Below the limit every digit counts. -/
theorem foldl_until {limit base : Nat} (hb : 0 < base) {n : Nat} {ds : List Nat}
    (h : ds.foldl (fun n d => base * n + d) n < limit) :
    ds.foldl (fun n d => if n < limit then base * n + d else n) n =
      ds.foldl (fun n d => base * n + d) n := by
  induction ds generalizing n with
  | nil => rfl
  | cons d ds ih =>
    have hn : n < limit := Nat.lt_of_le_of_lt (le_foldl hb n (d :: ds)) h
    rw [List.foldl_cons, List.foldl_cons, if_pos hn, ih h]

theorem valueUntil_eq_of_lt {limit base : Nat} (hb : 0 < base) {ds : List Nat}
    (h : value base ds < limit) : valueUntil limit base ds = value base ds :=
  foldl_until hb h

/-- A number is what its digits stand for. -/
theorem value_ofNat (base n : Nat) : value base (ofNat base n) = n := by
  fun_induction ofNat base n with
  | case1 n h => simp [value]
  | case2 n h hlt ih => rw [value_append_singleton, ih]; exact Nat.div_add_mod n base

/-- A fixed number of digits keeps the number up to its size. -/
theorem value_fixed (base width n : Nat) :
    value base (fixed base width n) = n % scale base width := by
  induction width generalizing n with
  | zero => simp [fixed, value, scale, Nat.mod_one]
  | succ w ih =>
    rw [fixed, value_append_singleton, ih, scale, Nat.mod_mul, Nat.add_comm]

theorem length_fixed (base width n : Nat) : (fixed base width n).length = width := by
  induction width generalizing n with
  | zero => rfl
  | succ w ih => simp [fixed, ih]

theorem lt_of_mem_fixed {base width n d : Nat} (hb : 0 < base) (h : d ∈ fixed base width n) :
    d < base := by
  induction width generalizing n with
  | zero => simp [fixed] at h
  | succ w ih =>
    rcases List.mem_append.1 h with h | h
    · exact ih h
    · rw [List.mem_singleton.1 h]
      exact Nat.mod_lt _ hb

theorem lt_of_mem_ofNat {base n d : Nat} (hb : 2 ≤ base) (h : d ∈ ofNat base n) : d < base := by
  fun_induction ofNat base n with
  | case1 n hn =>
    rw [List.mem_singleton.1 h]
    omega
  | case2 n hn hlt ih =>
    rcases List.mem_append.1 h with h | h
    · exact ih h
    · rw [List.mem_singleton.1 h]
      exact Nat.mod_lt _ (by omega)

/-- Only zero begins with a zero. -/
theorem eq_zero_of_ofNat_eq_zero_cons {base n : Nat} (hb : 2 ≤ base) {ds : List Nat}
    (h : ofNat base n = 0 :: ds) : n = 0 := by
  fun_induction ofNat base n generalizing ds with
  | case1 n hn => exact (List.cons.inj h).1
  | case2 n hn hlt ih =>
    cases hq : ofNat base (n / base) with
    | nil =>
      have hv := value_ofNat base (n / base)
      rw [hq] at hv
      have hd := Nat.div_eq_zero_iff.1 hv.symm
      omega
    | cons e es =>
      rw [hq, List.cons_append] at h
      obtain ⟨rfl, -⟩ := List.cons.inj h
      have hd := Nat.div_eq_zero_iff.1 (ih hq)
      omega

theorem ofNat_zero (base : Nat) (hb : 0 < base) : ofNat base 0 = [0] := by
  rw [ofNat, dif_pos (.inl hb)]

theorem ofNat_ne_nil (base n : Nat) : ofNat base n ≠ [] := by
  rw [ofNat]
  split <;> simp

end SigScan.Text.Digits
