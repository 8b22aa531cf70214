/-
SigScan.Proofs.Resolve.Buffer — resolving in a buffer and in a snapshot of it.

A buffer placed at an address can be asked directly, or as the only segment of a snapshot.
The direct way cuts the displacement out by its distance from the base and relies on the
region alone to keep the cut inside the buffer; the snapshot looks for a segment that holds
it. Both give the same (`resolveInBuffer_eq_resolve`), for every base, also where the buffer
would run past the top of the address space and its region ends there.

That no cut leaves the buffer is told by cutting with both bounds checked (`sliceAt?`): what
stands for a cut that leaves the buffer makes no difference.
-/
import SigScan.Resolve
import SigScan.Memory.Snapshot

namespace SigScan

open Bytes

/-! ## Cuts with their bounds checked -/

namespace Bytes

/-- The bytes from an address on, of bytes placed at `base`; none if the address lies before
the base or if they reach past the end. -/
def sliceAt? (bytes : ByteArray) (base address : UInt64) (size : Nat) : Option ByteArray :=
  if base ≤ address ∧ address.toNat - base.toNat + size ≤ bytes.size then
    some (slice bytes (address.toNat - base.toNat) size)
  else none

/-- Inside the region of the bytes a cut has its bounds. -/
theorem sliceAt?_of_containsRange {bytes : ByteArray} {base address : UInt64} {access : Access}
    {size : Nat} (h : Region.containsRange ⟨base, bytes.size, access⟩ address size = true) :
    sliceAt? bytes base address size = some (slice bytes (address - base).toNat size) := by
  obtain ⟨hlow, hhigh, -⟩ := Region.containsRange_iff.1 h
  have hle : base ≤ address := UInt64.le_iff_toNat_le.2 hlow
  have hroom : address.toNat - base.toNat + size ≤ bytes.size := by
    simp only at hlow hhigh
    omega
  rw [sliceAt?, if_pos ⟨hle, hroom⟩, UInt64.toNat_sub_of_le _ _ hle]

end Bytes

namespace Snapshot

/-- A snapshot that cuts with both bounds checked, and answers `fault` where a cut would leave
its segment. -/
def guarded (m : Snapshot) (fault : Except ReadFault ByteArray) : Source where
  read address size :=
    match m.segment? address size with
    | some s =>
      match sliceAt? s.bytes s.base address size with
      | some bytes => .ok bytes
      | none => fault
    | none => .error ⟨address, .notMapped size⟩

/-- No read of a snapshot cuts outside the segment that answers it. -/
theorem guarded_eq_source (m : Snapshot) (fault : Except ReadFault ByteArray) :
    m.guarded fault = m.source := by
  have hread : ∀ address size,
      (m.guarded fault).read address size = m.source.read address size := by
    intro address size
    simp only [guarded, source, segment?]
    cases h : m.segments.find? fun s => s.region.containsRange address size with
    | none => rfl
    | some s =>
      have hrange : s.region.containsRange address size = true := by simpa using List.find?_some h
      simp only [sliceAt?_of_containsRange hrange, Segment.place]
  rw [Source.mk.injEq]
  funext address size
  exact hread address size

end Snapshot

/-! ## A buffer and its snapshot -/

/-- The displacement at a place of a buffer, cut with both bounds checked, and `fault` where
the cut would leave the buffer. -/
def guardedDisplacement (buffer : ByteArray) (base : UInt64) (fault : Except FailureKind Int32)
    (field : UInt64) : Except FailureKind Int32 :=
  match sliceAt? buffer base field displacementSize with
  | some bytes => .ok (word (toList bytes)).toUInt32.toInt32
  | none => fault

section

variable {buffer : ByteArray} {base address : UInt64} {s : Signature}

/-- A buffer is asked only for displacements that lie inside of it. -/
theorem follow_guardedDisplacement (fault : Except FailureKind Int32) :
    follow address ⟨base, buffer.size, .code⟩ s (guardedDisplacement buffer base fault) =
      resolveInBuffer buffer base address s := by
  refine follow_congr ?_
  intro field hrange
  simp only [guardedDisplacement, sliceAt?_of_containsRange hrange]

/-- The only segment of a snapshot answers wherever its region has room for a displacement. -/
theorem readInt32_ofDump {field : UInt64}
    (h : Region.containsRange ⟨base, buffer.size, .code⟩ field 4 = true) :
    (Snapshot.ofDump buffer base).source.readInt32 field =
      .ok (word (toList (slice buffer (field - base).toNat 4))).toUInt32.toInt32 := by
  have hread : (Snapshot.ofDump buffer base).source.read field 4 =
      .ok (slice buffer (field - base).toNat 4) := by
    simp [Snapshot.ofDump, Snapshot.empty, Snapshot.add, Snapshot.source, Snapshot.segment?,
      Segment.region, Segment.place, h]
  have hsize := Snapshot.size_of_read_eq_ok hread
  simp only [Source.readInt32, Source.readWord, hread, hsize, if_true, Except.map]

theorem resolveInBuffer_eq_resolve_ofDump :
    resolveInBuffer buffer base address s =
      resolve (Snapshot.ofDump buffer base).source ⟨address, ⟨base, buffer.size, .code⟩⟩ s := by
  refine follow_congr ?_
  intro field hrange
  rw [readInt32_ofDump hrange]
  rfl

theorem resolveInBuffer_ne_unreadable (place : UInt64) :
    resolveInBuffer buffer base address s ≠ .error (.unreadable place) := by
  cases hm : s.mode with
  | direct =>
    rw [resolveInBuffer, follow_direct hm]
    simp
  | relativeDisplacement =>
    cases hr : Region.containsRange ⟨base, buffer.size, .code⟩ (address + s.offset.toUInt64)
        displacementSize with
    | false =>
      rw [resolveInBuffer, follow_outside hm hr]
      simp
    | true =>
      rw [resolveInBuffer, follow_inside hm hr]
      simp [Except.map]

end

/-- A match in a buffer resolves to what it resolves to in the snapshot that holds just this
buffer, in the region of its segment. Reading never fails in either, and never cuts outside
the buffer: what a cut outside would give makes no difference. -/
theorem resolveInBuffer_eq_resolve (buffer : ByteArray) (base address : UInt64) (s : Signature) :
    (Snapshot.ofDump buffer base).regions = [⟨base, buffer.size, .code⟩]
    ∧ resolveInBuffer buffer base address s =
      resolve (Snapshot.ofDump buffer base).source ⟨address, ⟨base, buffer.size, .code⟩⟩ s
    ∧ (∀ place, resolveInBuffer buffer base address s ≠ .error (.unreadable place))
    ∧ (∀ place, resolve (Snapshot.ofDump buffer base).source
        ⟨address, ⟨base, buffer.size, .code⟩⟩ s ≠ .error (.unreadable place))
    ∧ (∀ fault, follow address ⟨base, buffer.size, .code⟩ s
        (guardedDisplacement buffer base fault) = resolveInBuffer buffer base address s)
    ∧ ∀ fault, (Snapshot.ofDump buffer base).guarded fault =
      (Snapshot.ofDump buffer base).source := by
  refine ⟨rfl, resolveInBuffer_eq_resolve_ofDump, resolveInBuffer_ne_unreadable, ?_,
    follow_guardedDisplacement, Snapshot.guarded_eq_source _⟩
  intro place
  rw [← resolveInBuffer_eq_resolve_ofDump]
  exact resolveInBuffer_ne_unreadable place

end SigScan
