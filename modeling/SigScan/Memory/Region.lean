/-
SigScan.Memory.Region — the spans of a module.

A region is a span of addresses with access flags. Its end is one past its last address
and stops at the highest address there is, so a span that would run past the top of the
address space is cut off. A range of bytes lies inside a region if it neither starts
before it nor reaches past its end, the sum taken over the natural numbers.

Main statements: `containsRange_iff`, and that a range inside a region that does not
reach the top keeps its distance from both ends (`containsRange_iff_of_fits`).
-/

namespace SigScan

/-- What a region may be used for. -/
structure Access where
  readable : Bool
  executable : Bool
deriving DecidableEq, Repr, Inhabited

/-- Code can be read and executed. -/
def Access.code : Access := ⟨true, true⟩

/-- Data can be read only. -/
def Access.data : Access := ⟨true, false⟩

/-- A span of addresses that may be scanned. -/
structure Region where
  base : UInt64
  len : Nat
  access : Access
deriving DecidableEq, Repr, Inhabited

namespace Region

/-- One past the last address; the highest address if that is out of reach. -/
def limit (r : Region) : UInt64 :=
  UInt64.ofNat (min (r.base.toNat + r.len) (UInt64.size - 1))

/-- Whether an address lies in the region. -/
def contains (r : Region) (address : UInt64) : Bool :=
  r.base ≤ address && address < r.limit

/-- Whether the `size` bytes from an address on lie in the region. A range that would run
past the top of the address space does not. -/
def containsRange (r : Region) (address : UInt64) (size : Nat) : Bool :=
  r.base ≤ address && decide (address.toNat + size ≤ r.limit.toNat)

theorem toNat_limit (r : Region) :
    r.limit.toNat = min (r.base.toNat + r.len) (UInt64.size - 1) := by
  unfold limit
  rw [UInt64.toNat_ofNat', Nat.mod_eq_of_lt]
  simp only [UInt64.size]
  omega

theorem containsRange_iff {r : Region} {address : UInt64} {size : Nat} :
    r.containsRange address size = true ↔
      r.base.toNat ≤ address.toNat ∧ address.toNat + size ≤ r.base.toNat + r.len
        ∧ address.toNat + size < UInt64.size := by
  unfold containsRange
  rw [Bool.and_eq_true, decide_eq_true_iff, decide_eq_true_iff, UInt64.le_iff_toNat_le,
    toNat_limit]
  simp only [UInt64.size]
  omega

/-- Below the top of the address space only the two ends of the region matter. -/
theorem containsRange_iff_of_fits {r : Region} (h : r.base.toNat + r.len < UInt64.size)
    {address : UInt64} {size : Nat} :
    r.containsRange address size = true ↔
      r.base.toNat ≤ address.toNat ∧ address.toNat + size ≤ r.base.toNat + r.len := by
  rw [containsRange_iff]
  omega

end Region

end SigScan
