/-
SigScan.Proofs.Memory.Extent — the bytes of a segment by address.

A segment has one byte at each address from its base to its end (`Segment.byte?`), and a read
that it answers gives its bytes at the addresses that were asked for (`at?_read`). Where no
segment reaches the top of the address space, a range of addresses lies in the region of a
segment exactly if the segment spans it, told over the natural numbers
(`containsRange_region_iff`).
-/
import SigScan.Memory.Snapshot

namespace SigScan

open Bytes

namespace Bytes

/-- The byte at an address, of bytes placed from `base` on. -/
def placed? (bytes : ByteArray) (base address : UInt64) : Option UInt8 :=
  if base ≤ address then at? bytes (address.toNat - base.toNat) else none

theorem at?_eq_none_iff {bytes : ByteArray} {i : Nat} : at? bytes i = none ↔ bytes.size ≤ i := by
  by_cases h : i < bytes.size
  · simp only [at?, dif_pos h, reduceCtorEq, false_iff]
    omega
  · simp only [at?, dif_neg h, true_iff]
    omega

/-- Placed bytes have no byte exactly at the addresses in front of them and behind them. -/
theorem placed?_eq_none_iff {bytes : ByteArray} {base address : UInt64} :
    placed? bytes base address = none ↔
      ¬ (base.toNat ≤ address.toNat ∧ address.toNat < base.toNat + bytes.size) := by
  rw [placed?]
  by_cases h : base ≤ address
  · rw [if_pos h, at?_eq_none_iff]
    rw [UInt64.le_iff_toNat_le] at h
    omega
  · rw [if_neg h]
    rw [UInt64.le_iff_toNat_le] at h
    simp only [true_iff]
    omega

end Bytes

/-- Counted on to an address below the top, addresses are not cut. -/
theorem toNat_add_ofNat {address : UInt64} {i : Nat} (h : address.toNat + i < UInt64.size) :
    (address + UInt64.ofNat i).toNat = address.toNat + i := by
  simp only [UInt64.size] at h
  rw [UInt64.toNat_add, UInt64.toNat_ofNat']
  omega

namespace Segment

variable {s : Segment} {address : UInt64} {size : Nat}

/-- The byte of a segment at an address. -/
def byte? (s : Segment) (address : UInt64) : Option UInt8 :=
  placed? s.bytes s.base address

/-- The segment has bytes at all of the `size` addresses from an address on. -/
def Spans (s : Segment) (address : UInt64) (size : Nat) : Prop :=
  s.base.toNat ≤ address.toNat ∧ address.toNat + size ≤ s.base.toNat + s.bytes.size

instance (s : Segment) (address : UInt64) (size : Nat) : Decidable (s.Spans address size) :=
  inferInstanceAs (Decidable (_ ∧ _))

/-- The end of the segment fits in 64 bits. -/
def Fits (s : Segment) : Prop :=
  s.base.toNat + s.bytes.size < UInt64.size

instance (s : Segment) : Decidable s.Fits :=
  inferInstanceAs (Decidable (_ < _))

theorem byte?_eq_none_iff : s.byte? address = none ↔ ¬ s.Spans address 1 := by
  rw [byte?, placed?_eq_none_iff, Spans]
  omega

theorem spans_of_byte?_eq_some {b : UInt8} (h : s.byte? address = some b) : s.Spans address 1 := by
  refine Decidable.not_not.1 fun hnot => ?_
  rw [byte?_eq_none_iff.2 hnot] at h
  contradiction

/-- A segment has a byte at each address that it spans. -/
theorem exists_byte?_of_spans (h : s.Spans address 1) : ∃ b, s.byte? address = some b := by
  cases hb : s.byte? address with
  | none => exact absurd h (byte?_eq_none_iff.1 hb)
  | some b => exact ⟨b, rfl⟩

/-- Where the end of a segment fits in 64 bits, its range check is exact. -/
theorem containsRange_region_iff (h : s.Fits) :
    s.region.containsRange address size = true ↔ s.Spans address size := by
  have hend : s.region.base.toNat + s.region.len < UInt64.size := h
  exact Region.containsRange_iff_of_fits hend

/-- What a segment spans is told by its region. -/
theorem spans_iff_region :
    s.Spans address size ↔ s.region.base.toNat ≤ address.toNat
      ∧ address.toNat + size ≤ s.region.base.toNat + s.region.len :=
  Iff.rfl

/-- Whatever its end, a range that passes the check is spanned. -/
theorem spans_of_containsRange (h : s.region.containsRange address size = true) :
    s.Spans address size := by
  obtain ⟨hlow, hhigh, -⟩ := Region.containsRange_iff.1 h
  exact ⟨hlow, hhigh⟩

/-- What a segment is cut for an answer are its bytes at the addresses asked for. -/
theorem at?_slice (h : s.region.containsRange address size = true) {i : Nat} (hi : i < size) :
    at? (slice s.bytes (s.place address) size) i = s.byte? (address + UInt64.ofNat i) := by
  obtain ⟨hlow, -, htop⟩ := Region.containsRange_iff.1 h
  have hbase : s.base ≤ address := UInt64.le_iff_toNat_le.2 hlow
  have hlow : s.base.toNat ≤ address.toNat := hlow
  have hadd : (address + UInt64.ofNat i).toNat = address.toNat + i := toNat_add_ofNat (by omega)
  have hle : s.base ≤ address + UInt64.ofNat i := by
    rw [UInt64.le_iff_toNat_le, hadd]
    omega
  rw [slice, at?_extract, if_pos (by omega), byte?, placed?, if_pos hle, hadd, place,
    UInt64.toNat_sub_of_le _ _ hbase]
  congr 1
  omega

end Segment

namespace Snapshot

variable {m : Snapshot} {address : UInt64} {size : Nat}

theorem containsRange_of_segment? {s : Segment} (h : m.segment? address size = some s) :
    s.region.containsRange address size = true := by
  simpa using List.find?_some h

theorem mem_of_segment? {s : Segment} (h : m.segment? address size = some s) : s ∈ m.segments :=
  List.mem_of_find?_eq_some h

/-- A read that is answered gives the bytes of one segment. -/
theorem at?_read {bytes : ByteArray} (h : m.source.read address size = .ok bytes) :
    ∃ s, m.segment? address size = some s ∧ bytes.size = size
      ∧ ∀ i < size, at? bytes i = s.byte? (address + UInt64.ofNat i) := by
  have hsize := size_of_read_eq_ok h
  simp only [source] at h
  split at h
  · next s hs =>
    obtain rfl := Except.ok.inj h
    exact ⟨s, hs, hsize, fun i hi => Segment.at?_slice (containsRange_of_segment? hs) hi⟩
  · contradiction

end Snapshot

end SigScan
