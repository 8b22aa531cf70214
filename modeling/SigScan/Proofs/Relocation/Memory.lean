/-
SigScan.Proofs.Relocation.Memory — memory at another place.

To move memory by `d` is to add `d` to its addresses, modulo 2^64; a move down is a move by
the complement. Where neither the old nor the new place of a segment reaches the top of the
address space, a range lies in the moved segment exactly if the range before the move lies
in the segment (`containsRange_shift`), so a moved snapshot answers as the snapshot does
(`source_shift`).
-/
import SigScan.Memory.Snapshot

namespace SigScan

/-! ## Regions -/

namespace Region

/-- The region `d` addresses further on. -/
def shift (d : UInt64) (r : Region) : Region :=
  { r with base := r.base + d }

/-- Neither here nor `d` addresses further on does the region reach the top of the address
space. -/
structure Movable (d : UInt64) (r : Region) : Prop where
  before : r.base.toNat + r.len < UInt64.size
  after : (r.base + d).toNat + r.len < UInt64.size

variable {r : Region} {d : UInt64}

/-- Below the top of the address space a range lies in a region exactly if its distance from
the base leaves room for it. -/
theorem containsRange_iff_sub (h : r.base.toNat + r.len < UInt64.size) {address : UInt64}
    {size : Nat} :
    r.containsRange address size = true ↔ (address - r.base).toNat + size ≤ r.len := by
  have hbase := r.base.toNat_lt
  have haddress := address.toNat_lt
  rw [containsRange_iff_of_fits h, UInt64.toNat_sub]
  simp only [UInt64.size] at h
  omega

/-- Away from the top of the address space a move loses no range and adds none. -/
theorem containsRange_shift (h : r.Movable d) (address : UInt64) (size : Nat) :
    (r.shift d).containsRange (address + d) size = r.containsRange address size := by
  have hsub : address + d - (r.base + d) = address - r.base := by grind
  rw [Bool.eq_iff_iff, containsRange_iff_sub h.before, containsRange_iff_sub h.after]
  simp only [shift, hsub]

end Region

/-! ## Sources -/

/-- The fault of a read `d` addresses further on. -/
def ReadFault.shift (d : UInt64) (f : ReadFault) : ReadFault :=
  { f with address := f.address + d }

namespace Source

variable {d : UInt64}

/-- The memory moved by `d`. -/
def shift (d : UInt64) (m : Source) : Source where
  read address size := (m.read (address - d) size).mapError (·.shift d)

theorem read_shift (m : Source) (d address : UInt64) (size : Nat) :
    (m.shift d).read (address + d) size = (m.read address size).mapError (·.shift d) := by
  simp only [shift, UInt64.add_sub_cancel]

/-- A word is the same at the moved address, and so is its fault apart from the address. -/
theorem readWord_shift (m : Source) (d address : UInt64) (size : Nat) :
    (m.shift d).readWord (address + d) size =
      (m.readWord address size).mapError (·.shift d) := by
  rw [readWord, readWord, read_shift]
  cases m.read address size with
  | error fault => rfl
  | ok bytes =>
    change (if _ then _ else _) = Except.mapError _ (if _ then _ else _)
    split <;> rfl

theorem readInt32_shift (m : Source) (d address : UInt64) :
    (m.shift d).readInt32 (address + d) = (m.readInt32 address).mapError (·.shift d) := by
  rw [readInt32, readInt32, readWord_shift]
  cases m.readWord address 4 <;> rfl

end Source

/-! ## Snapshots -/

/-- The segment `d` addresses further on. -/
def Segment.shift (d : UInt64) (s : Segment) : Segment :=
  { s with base := s.base + d }

theorem Segment.place_shift (s : Segment) (d address : UInt64) :
    (s.shift d).place (address + d) = s.place address := by
  have hsub : address + d - (s.base + d) = address - s.base := by grind
  rw [place, place, shift, hsub]

namespace Snapshot

/-- The snapshot moved by `d`. -/
def shift (d : UInt64) (m : Snapshot) : Snapshot :=
  ⟨m.segments.map (Segment.shift d)⟩

/-- The end of every segment fits in 64 bits, before the move and after it. -/
def Movable (d : UInt64) (m : Snapshot) : Prop :=
  ∀ s ∈ m.segments, s.region.Movable d

variable {d : UInt64} {m : Snapshot}

theorem regions_shift (d : UInt64) (m : Snapshot) :
    (m.shift d).regions = m.regions.map (Region.shift d) := by
  rw [regions, regions, shift, List.map_map, List.map_map]
  rfl

theorem movable_of_mem_regions (h : m.Movable d) {r : Region} (hr : r ∈ m.regions) :
    r.Movable d := by
  obtain ⟨s, hs, rfl⟩ := List.mem_map.1 hr
  exact h s hs

/-- The segment that serves the moved range is the moved segment. -/
theorem segment?_shift (h : m.Movable d) (address : UInt64) (size : Nat) :
    (m.shift d).segment? (address + d) size = (m.segment? address size).map (Segment.shift d) := by
  obtain ⟨segments⟩ := m
  simp only [segment?, shift, List.find?_map, Function.comp_def]
  congr 1
  induction segments with
  | nil => rfl
  | cons s ss ih =>
    have hs := Region.containsRange_shift (h s List.mem_cons_self) address size
    have hss := ih fun s' hs' => h s' (List.mem_cons_of_mem _ hs')
    rw [List.find?_cons, List.find?_cons, hss]
    simp only [Segment.region, Segment.shift, Region.shift] at hs ⊢
    rw [hs]

/-- A moved snapshot answers at the moved address as the snapshot does. -/
theorem source_shift (h : m.Movable d) : (m.shift d).source = m.source.shift d := by
  simp only [source, Source.shift, Source.mk.injEq]
  funext address size
  have hseg := segment?_shift h (address - d) size
  rw [UInt64.sub_add_cancel] at hseg
  rw [hseg]
  cases m.segment? (address - d) size with
  | none =>
    have hfault : (ReadFault.mk (address - d) (.notMapped size)).shift d =
        ⟨address, .notMapped size⟩ := by
      simp [ReadFault.shift]
    exact congrArg Except.error hfault.symm
  | some s =>
    have hplace := s.place_shift d (address - d)
    rw [UInt64.sub_add_cancel] at hplace
    simp only [Option.map_some, hplace]
    rfl

end Snapshot

end SigScan
