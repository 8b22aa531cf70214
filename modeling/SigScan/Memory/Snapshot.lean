/-
SigScan.Memory.Snapshot — memory made of byte segments at fixed addresses.

A snapshot is built by adding segments and patching bytes of segments already added. A
read is answered by the first segment that holds the whole range, and a patch goes to
the first such segment; a patch that fits in none is left out.

Main statements: a patch keeps the sizes and places of the segments
(`map_region_patch`), and a read is answered exactly if some segment holds the range
(`read_isOk_iff`).
-/
import SigScan.Memory.Region
import SigScan.Memory.Source

namespace SigScan

/-- Bytes placed at an address. -/
structure Segment where
  base : UInt64
  bytes : ByteArray
  access : Access

namespace Segment

/-- The region that a segment covers. -/
def region (s : Segment) : Region :=
  ⟨s.base, s.bytes.size, s.access⟩

/-- The place of an address in the bytes of a segment that covers it. -/
def place (s : Segment) (address : UInt64) : Nat :=
  (address - s.base).toNat

/-- The segment with `patch` written over its bytes from a place on. -/
def overwrite (s : Segment) (start : Nat) (patch : ByteArray) : Segment :=
  { s with
    bytes := s.bytes.extract 0 start ++ patch
      ++ s.bytes.extract (start + patch.size) s.bytes.size }

theorem region_overwrite {s : Segment} {start : Nat} {patch : ByteArray}
    (h : start + patch.size ≤ s.bytes.size) : (s.overwrite start patch).region = s.region := by
  simp only [region, overwrite, ByteArray.size_append, ByteArray.size_extract, Region.mk.injEq,
    true_and, and_true]
  omega

/-- A range inside the region of a segment lies inside its bytes. -/
theorem place_add_le {s : Segment} {address : UInt64} {size : Nat}
    (h : s.region.containsRange address size = true) :
    s.place address + size ≤ s.bytes.size := by
  obtain ⟨h1, h2, -⟩ := Region.containsRange_iff.1 h
  simp only [region] at h1 h2
  rw [place, UInt64.toNat_sub_of_le _ _ (UInt64.le_iff_toNat_le.2 h1)]
  omega

end Segment

/-- Byte segments in the order in which they were added. -/
structure Snapshot where
  segments : List Segment

namespace Snapshot

/-- A snapshot without segments. -/
def empty : Snapshot := ⟨[]⟩

/-- Adds a segment behind the others. -/
def add (m : Snapshot) (base : UInt64) (bytes : ByteArray) (access : Access) : Snapshot :=
  ⟨m.segments ++ [⟨base, bytes, access⟩]⟩

/-- Writes over the first segment of a list that holds the whole range. -/
def patchFirst (address : UInt64) (patch : ByteArray) : List Segment → List Segment
  | [] => []
  | s :: rest =>
    if s.region.containsRange address patch.size then
      s.overwrite (s.place address) patch :: rest
    else s :: patchFirst address patch rest

/-- Writes bytes at an address inside a segment already added. -/
def patch (m : Snapshot) (address : UInt64) (bytes : ByteArray) : Snapshot :=
  ⟨patchFirst address bytes m.segments⟩

/-- A step of building a snapshot. -/
inductive Edit where
  | segment (base : UInt64) (bytes : ByteArray) (access : Access)
  | patch (address : UInt64) (bytes : ByteArray)

/-- The snapshot after one more step. -/
def apply (m : Snapshot) : Edit → Snapshot
  | .segment base bytes access => m.add base bytes access
  | .patch address bytes => m.patch address bytes

/-- The snapshot that a list of steps builds. -/
def build (edits : List Edit) : Snapshot :=
  edits.foldl apply empty

/-- The image of a module as one code segment. -/
def ofDump (bytes : ByteArray) (base : UInt64) : Snapshot :=
  empty.add base bytes .code

/-- The regions covered, in the order of the segments. -/
def regions (m : Snapshot) : List Region :=
  m.segments.map Segment.region

/-- Number of bytes held. -/
def size (m : Snapshot) : Nat :=
  m.segments.foldl (fun n s => n + s.bytes.size) 0

/-- The first segment that holds a whole range. -/
def segment? (m : Snapshot) (address : UInt64) (size : Nat) : Option Segment :=
  m.segments.find? fun s => s.region.containsRange address size

/-- A snapshot answers a read from the first segment that holds the whole range. -/
def source (m : Snapshot) : Source where
  read address size :=
    match m.segment? address size with
    | some s => .ok (Bytes.slice s.bytes (s.place address) size)
    | none => .error ⟨address, .notMapped size⟩

/-! ## Patches and reads -/

theorem map_region_patchFirst (address : UInt64) (bytes : ByteArray) (ss : List Segment) :
    (patchFirst address bytes ss).map Segment.region = ss.map Segment.region := by
  induction ss with
  | nil => rfl
  | cons s ss ih =>
    rw [patchFirst]
    split
    · next h => simp [Segment.region_overwrite (Segment.place_add_le h)]
    · simp [ih]

/-- A patch changes neither the sizes nor the places of the segments. -/
theorem map_region_patch (m : Snapshot) (address : UInt64) (bytes : ByteArray) :
    (m.patch address bytes).regions = m.regions :=
  map_region_patchFirst address bytes m.segments

/-- A read is answered exactly if some segment holds the whole range. -/
theorem read_isOk_iff {m : Snapshot} {address : UInt64} {size : Nat} :
    (∃ bytes, m.source.read address size = .ok bytes) ↔
      ∃ s ∈ m.segments, s.region.containsRange address size = true := by
  simp only [source, segment?]
  cases h : m.segments.find? fun s => s.region.containsRange address size with
  | none => simpa using h
  | some s => simpa using ⟨s, List.mem_of_find?_eq_some h, by simpa using List.find?_some h⟩

/-- A read that is answered returns as many bytes as were asked for. -/
theorem size_of_read_eq_ok {m : Snapshot} {address : UInt64} {size : Nat} {bytes : ByteArray}
    (h : m.source.read address size = .ok bytes) : bytes.size = size := by
  simp only [source, segment?] at h
  split at h
  · next s hs =>
    obtain rfl : Bytes.slice s.bytes (s.place address) size = bytes := by simpa using h
    have := Segment.place_add_le (by simpa using List.find?_some hs)
    simp only [Bytes.slice, ByteArray.size_extract]
    omega
  · simp at h

end Snapshot

end SigScan
