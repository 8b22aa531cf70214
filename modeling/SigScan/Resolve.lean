/-
SigScan.Resolve — from matches to addresses.

Near calls and jumps and operands relative to the next instruction hold a signed 32-bit
displacement, which is added to the address behind it. One rule serves every relative
idiom; only the place of the displacement differs. Address arithmetic is on 64 bits.

Main statements: a direct signature resolves to the match moved by its offset
(`follow_direct`), and the displacement is looked for only inside the region
(`follow_outOfBounds_iff`, `follow_congr`).
-/
import SigScan.Error
import SigScan.Memory.Region
import SigScan.Scan.Tally

namespace SigScan

/-- Size of a displacement in bytes. -/
def displacementSize : Nat := 4

/-- The address that a displacement at `field` leads to. -/
def target (field : UInt64) (displacement : Int32) : UInt64 :=
  field + UInt64.ofNat displacementSize + displacement.toInt64.toUInt64

/-- The address that a match leads to. The displacement is asked for only at places that
lie in the region with all their bytes. -/
def follow (address : UInt64) (region : Region) (s : Signature)
    (displacement : UInt64 → Except FailureKind Int32) : Except FailureKind UInt64 :=
  let field := address + s.offset.toUInt64
  match s.mode with
  | .direct => .ok field
  | .relativeDisplacement =>
    if region.containsRange field displacementSize then
      (displacement field).map (target field)
    else .error (.outOfBounds field)

/-- The address of a match, the displacement read from memory. -/
def resolve (m : Source) (found : Scan.Match) (s : Signature) : Except FailureKind UInt64 :=
  follow found.address found.region s fun field =>
    match m.readInt32 field with
    | .ok displacement => .ok displacement
    | .error _ => .error (.unreadable field)

/-- The address of a match in a buffer placed at `base`. -/
def resolveInBuffer (buffer : ByteArray) (base address : UInt64) (s : Signature) :
    Except FailureKind UInt64 :=
  follow address ⟨base, buffer.size, .code⟩ s fun field =>
    let bytes := Bytes.slice buffer (field - base).toNat displacementSize
    .ok (Bytes.word (Bytes.toList bytes)).toUInt32.toInt32

theorem follow_direct {address : UInt64} {region : Region} {s : Signature}
    {displacement : UInt64 → Except FailureKind Int32} (h : s.mode = .direct) :
    follow address region s displacement = .ok (address + s.offset.toUInt64) := by
  simp [follow, h]

theorem follow_outside {address : UInt64} {region : Region} {s : Signature}
    {displacement : UInt64 → Except FailureKind Int32} (hm : s.mode = .relativeDisplacement)
    (hr : region.containsRange (address + s.offset.toUInt64) displacementSize = false) :
    follow address region s displacement = .error (.outOfBounds (address + s.offset.toUInt64)) := by
  simp [follow, hm, hr]

theorem follow_inside {address : UInt64} {region : Region} {s : Signature}
    {displacement : UInt64 → Except FailureKind Int32} (hm : s.mode = .relativeDisplacement)
    (hr : region.containsRange (address + s.offset.toUInt64) displacementSize = true) :
    follow address region s displacement =
      (displacement (address + s.offset.toUInt64)).map (target (address + s.offset.toUInt64)) := by
  simp [follow, hm, hr]

/-- A displacement is asked for at most at one place, and only if the region holds all of
its bytes. -/
theorem follow_congr {address : UInt64} {region : Region} {s : Signature}
    {f g : UInt64 → Except FailureKind Int32}
    (h : ∀ field, region.containsRange field displacementSize = true → f field = g field) :
    follow address region s f = follow address region s g := by
  cases hm : s.mode with
  | direct => rw [follow_direct hm, follow_direct hm]
  | relativeDisplacement =>
    cases hr : region.containsRange (address + s.offset.toUInt64) displacementSize with
    | false => rw [follow_outside hm hr, follow_outside hm hr]
    | true => rw [follow_inside hm hr, follow_inside hm hr, h _ hr]

/-- A relative signature fails for its place exactly if the region does not hold all
bytes of the displacement. -/
theorem follow_outOfBounds_iff {address : UInt64} {region : Region} {s : Signature}
    {displacement : UInt64 → Except FailureKind Int32}
    (hd : ∀ field a, displacement field ≠ .error (.outOfBounds a)) {field : UInt64} :
    follow address region s displacement = .error (.outOfBounds field) ↔
      s.mode = .relativeDisplacement ∧ field = address + s.offset.toUInt64
        ∧ region.containsRange field displacementSize = false := by
  cases hm : s.mode with
  | direct =>
    rw [follow_direct hm]
    simp
  | relativeDisplacement =>
    cases hr : region.containsRange (address + s.offset.toUInt64) displacementSize with
    | false =>
      rw [follow_outside hm hr, Except.error.injEq, FailureKind.outOfBounds.injEq]
      constructor
      · rintro rfl
        exact ⟨rfl, rfl, hr⟩
      · rintro ⟨-, rfl, -⟩
        rfl
    | true =>
      rw [follow_inside hm hr]
      constructor
      · intro h
        cases hx : displacement (address + s.offset.toUInt64) with
        | ok d => simp [hx, Except.map] at h
        | error k =>
          simp only [hx, Except.map, Except.error.injEq] at h
          exact absurd (h ▸ hx) (hd _ _)
      · rintro ⟨-, rfl, h⟩
        simp [hr] at h

end SigScan
