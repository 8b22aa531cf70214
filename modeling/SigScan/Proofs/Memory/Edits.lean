/-
SigScan.Proofs.Memory.Edits — what a sequence of edits leaves in memory.

Edits add segments and write patches over them. A patch lands if a single segment, added
before it, spans all of it; the byte at an address is then that of the last patch that landed
over it (`lastWritten?`), or the one that its segment was added with.

Where segments share no address and end below the top of the address space, a snapshot is its
segments as they were added, with the bytes of the last patches laid over them
(`segments_build`): one edit more adds a segment that no patch has touched, or lays one patch
more over the segment where it lands (`patchFirst_overlay`). What reads return is read off this
equation.

Wherever the segments lie, a patch keeps their regions, and one that does not land changes
nothing. That no edit and no read leaves the bytes of a segment is told by keeping the region
of each segment as it was when the segment was added, and checking the bounds of the bytes
wherever they are cut (`buildKept?`, `readKept`). All of this together is `reflects_build`.
-/
import Mathlib.Data.List.Induction
import SigScan.Proofs.Memory.Extent
import SigScan.Proofs.Resolve.Buffer
import SigScan.Proofs.Scan.Carry

namespace SigScan

open Bytes

/-! ## Segments with bytes laid over them -/

namespace Segment

variable {s t : Segment} {f g : UInt64 → Option UInt8} {address : UInt64}

/-- Segments at the same place with the same bytes are the same. -/
theorem eq_of_at? (hbase : s.base = t.base) (haccess : s.access = t.access)
    (h : ∀ i, at? s.bytes i = at? t.bytes i) : s = t := by
  obtain ⟨base, bytes, access⟩ := s
  obtain rfl : base = t.base := hbase
  obtain rfl : access = t.access := haccess
  exact congrArg (fun bytes => Segment.mk t.base bytes t.access) (ext_at? h)

/-- The segment with other bytes at the addresses where there are some. -/
def overlay (f : UInt64 → Option UInt8) (s : Segment) : Segment :=
  { s with
    bytes := ⟨Array.ofFn fun i : Fin s.bytes.size =>
      (f (s.base + UInt64.ofNat i)).getD s.bytes[i]⟩ }

theorem size_overlay (f : UInt64 → Option UInt8) (s : Segment) :
    (s.overlay f).bytes.size = s.bytes.size :=
  Array.size_ofFn

theorem region_overlay (f : UInt64 → Option UInt8) (s : Segment) :
    (s.overlay f).region = s.region := by
  rw [region, size_overlay]
  rfl

theorem at?_overlay (f : UInt64 → Option UInt8) (s : Segment) (i : Nat) :
    at? (s.overlay f).bytes i =
      (at? s.bytes i).map fun b => (f (s.base + UInt64.ofNat i)).getD b := by
  by_cases hi : i < s.bytes.size
  · have hi' : i < (s.overlay f).bytes.size := by rwa [size_overlay]
    rw [at?, dif_pos hi', at?, dif_pos hi, Option.map_some]
    exact congrArg some (Array.getElem_ofFn _)
  · rw [at?_eq_none_iff.2 (by rw [size_overlay]; omega), at?_eq_none_iff.2 (by omega)]
    rfl

theorem byte?_overlay (f : UInt64 → Option UInt8) (s : Segment) (address : UInt64) :
    (s.overlay f).byte? address = (s.byte? address).map fun b => (f address).getD b := by
  have hbase : (s.overlay f).base = s.base := rfl
  rw [byte?, byte?, placed?, placed?, hbase]
  by_cases h : s.base ≤ address
  · have hback : s.base + UInt64.ofNat (address.toNat - s.base.toNat) = address := by
      rw [← UInt64.toNat_sub_of_le _ _ h, UInt64.ofNat_toNat]
      grind
    rw [if_pos h, if_pos h, at?_overlay, hback]
  · rw [if_neg h, if_neg h]
    rfl

theorem spans_overlay {size : Nat} : (s.overlay f).Spans address size ↔ s.Spans address size := by
  rw [Spans, size_overlay]
  rfl

/-- The address at a place of a segment is one that it spans. -/
theorem spans_place (hs : s.Fits) {i : Nat} (hi : i < s.bytes.size) :
    s.Spans (s.base + UInt64.ofNat i) 1 := by
  rw [Fits] at hs
  rw [Spans, toNat_add_ofNat (by omega)]
  omega

/-- Only the bytes at addresses of the segment are laid over it. -/
theorem overlay_congr (hs : s.Fits) (h : ∀ address, s.Spans address 1 → f address = g address) :
    s.overlay f = s.overlay g := by
  refine eq_of_at? rfl rfl fun i => ?_
  rw [at?_overlay, at?_overlay]
  cases hi : at? s.bytes i with
  | none => rfl
  | some b =>
    have hlt : i < s.bytes.size := by
      refine Nat.lt_of_not_le fun hle => ?_
      rw [at?_eq_none_iff.2 hle] at hi
      contradiction
    rw [h _ (spans_place hs hlt)]

theorem overlay_of_none (hs : s.Fits) (h : ∀ address, s.Spans address 1 → f address = none) :
    s.overlay f = s := by
  rw [overlay_congr hs h]
  refine eq_of_at? rfl rfl fun i => ?_
  rw [at?_overlay]
  cases at? s.bytes i <;> rfl

/-- A patch is seen at its own addresses, and nowhere else. -/
theorem at?_overwrite {start : Nat} {patch : ByteArray}
    (h : start + patch.size ≤ s.bytes.size) (i : Nat) :
    at? (s.overwrite start patch).bytes i =
      if start ≤ i ∧ i < start + patch.size then at? patch (i - start) else at? s.bytes i := by
  have hfront : (s.bytes.extract 0 start).size = start := by
    rw [ByteArray.size_extract]
    omega
  have hwritten : (s.bytes.extract 0 start ++ patch).size = start + patch.size := by
    rw [ByteArray.size_append, hfront]
  rw [overwrite, at?_append, hwritten, at?_append, hfront, at?_extract, at?_extract]
  by_cases hbefore : i < start
  · have hnot : ¬ (start ≤ i ∧ i < start + patch.size) := by omega
    rw [if_pos (by omega), if_pos hbefore, if_pos (by omega), if_neg hnot, Nat.zero_add]
  · by_cases hin : i < start + patch.size
    · rw [if_pos hin, if_neg hbefore, if_pos ⟨by omega, hin⟩]
    · have hnot : ¬ (start ≤ i ∧ i < start + patch.size) := by omega
      rw [if_neg hin, if_neg hnot]
      by_cases hend : i < s.bytes.size
      · rw [if_pos (by omega)]
        congr 1
        omega
      · rw [if_neg (by omega), at?_eq_none_iff.2 (Nat.le_of_not_lt hend)]

/-- Where a patch lies within the segment, its bytes stand at the places from its start on. -/
theorem placed?_place {address : UInt64} {patch : ByteArray} (hs : s.Fits)
    (h : s.Spans address patch.size) {i : Nat} (hi : i < s.bytes.size) :
    placed? patch address (s.base + UInt64.ofNat i) =
      if s.place address ≤ i ∧ i < s.place address + patch.size then
        at? patch (i - s.place address)
      else none := by
  rw [Fits] at hs
  obtain ⟨hlow, hhigh⟩ := h
  have hplace : s.place address = address.toNat - s.base.toNat :=
    UInt64.toNat_sub_of_le _ _ (UInt64.le_iff_toNat_le.2 hlow)
  have hnext : (s.base + UInt64.ofNat i).toNat = s.base.toNat + i := toNat_add_ofNat (by omega)
  rw [hplace]
  by_cases hin : address.toNat - s.base.toNat ≤ i ∧ i < address.toNat - s.base.toNat + patch.size
  · have hle : address ≤ s.base + UInt64.ofNat i := by
      rw [UInt64.le_iff_toNat_le, hnext]
      omega
    rw [if_pos hin, placed?, if_pos hle, hnext]
    congr 1
    omega
  · rw [if_neg hin, placed?_eq_none_iff, hnext]
    omega

/-- To write a patch is to lay it over what was laid over the segment before. -/
theorem overwrite_overlay {address : UInt64} {patch : ByteArray} (hs : s.Fits)
    (h : s.Spans address patch.size) :
    (s.overlay f).overwrite (s.place address) patch =
      s.overlay fun x => (placed? patch address x).or (f x) := by
  have hroom : s.place address + patch.size ≤ (s.overlay f).bytes.size := by
    rw [size_overlay]
    exact place_add_le ((containsRange_region_iff hs).2 h)
  refine eq_of_at? rfl rfl fun i => ?_
  rw [at?_overwrite hroom, at?_overlay, at?_overlay]
  by_cases hi : i < s.bytes.size
  · rw [placed?_place hs h hi]
    obtain ⟨b, hb⟩ : ∃ b, at? s.bytes i = some b := ⟨s.bytes[i], dif_pos hi⟩
    rw [hb]
    by_cases hin : s.place address ≤ i ∧ i < s.place address + patch.size
    · obtain ⟨c, hc⟩ : ∃ c, at? patch (i - s.place address) = some c :=
        ⟨_, dif_pos (by omega)⟩
      rw [if_pos hin, if_pos hin, hc]
      rfl
    · rw [if_neg hin, if_neg hin, Option.none_or]
  · have hnot : ¬ (s.place address ≤ i ∧ i < s.place address + patch.size) := by
      rw [size_overlay] at hroom
      omega
    rw [if_neg hnot, at?_eq_none_iff.2 (Nat.le_of_not_lt hi)]
    rfl

/-- The segments share no address. -/
def Apart (s t : Segment) : Prop :=
  ∀ address, s.Spans address 1 → ¬ t.Spans address 1

/-- A segment apart from the one where a patch lies keeps the bytes that it has. -/
theorem overlay_of_apart {address : UInt64} {patch : ByteArray} (hs : s.Fits)
    (ht : t.Spans address patch.size) (h : s.Apart t) :
    s.overlay f = s.overlay fun x => (placed? patch address x).or (f x) := by
  refine overlay_congr hs fun x hx => ?_
  have hnone : placed? patch address x = none := by
    rw [placed?_eq_none_iff]
    rintro ⟨hlow, hhigh⟩
    refine h x hx ?_
    rw [Spans] at ht ⊢
    omega
  rw [hnone, Option.none_or]

theorem Apart.symm (h : s.Apart t) : t.Apart s :=
  fun x ht hs => h x hs ht

end Segment

namespace Snapshot

/-! ## One edit more -/

/-- A patch lands in the one segment that spans it. -/
theorem patchFirst_overlay {f : UInt64 → Option UInt8} {address : UInt64} {patch : ByteArray}
    {ss : List Segment} (hfits : ∀ s ∈ ss, s.Fits) (hapart : ss.Pairwise Segment.Apart)
    (hland : ∃ s ∈ ss, s.Spans address patch.size) :
    patchFirst address patch (ss.map (Segment.overlay f)) =
      ss.map (Segment.overlay fun x => (placed? patch address x).or (f x)) := by
  induction ss with
  | nil => simp at hland
  | cons s rest ih =>
    obtain ⟨hs, hrest⟩ := List.forall_mem_cons.1 hfits
    obtain ⟨haparts, hapart⟩ := List.pairwise_cons.1 hapart
    rw [List.map_cons, List.map_cons, patchFirst, Segment.region_overlay]
    by_cases hspans : s.Spans address patch.size
    · have hplace : (s.overlay f).place address = s.place address := rfl
      rw [if_pos ((Segment.containsRange_region_iff hs).2 hspans), hplace,
        Segment.overwrite_overlay hs hspans]
      refine congrArg (_ :: ·) (List.map_congr_left ?_)
      intro t ht
      exact Segment.overlay_of_apart (hrest t ht) hspans (haparts t ht).symm
    · obtain ⟨t, ht, hspanst⟩ : ∃ t ∈ rest, t.Spans address patch.size := by
        simpa [hspans] using hland
      have hnot : ¬ s.region.containsRange address patch.size = true :=
        fun h => hspans (Segment.spans_of_containsRange h)
      rw [if_neg hnot, ih hrest hapart ⟨t, ht, hspanst⟩,
        Segment.overlay_of_apart hs hspanst (haparts t ht)]

/-- A patch that no segment holds is left out. -/
theorem patchFirst_eq_self {address : UInt64} {patch : ByteArray} {ss : List Segment}
    (h : ∀ s ∈ ss, ¬ s.Spans address patch.size) : patchFirst address patch ss = ss := by
  induction ss with
  | nil => rfl
  | cons s rest ih =>
    obtain ⟨hs, hrest⟩ := List.forall_mem_cons.1 h
    rw [patchFirst, if_neg fun hrange => hs (Segment.spans_of_containsRange hrange), ih hrest]

/-! ## What a list of edits leaves -/

/-- The segment that an edit adds. -/
def Edit.segment? : Edit → Option Segment
  | .segment base bytes access => some ⟨base, bytes, access⟩
  | .patch _ _ => none

/-- The segments that edits add, with the bytes that they are added with. -/
def added (edits : List Edit) : List Segment :=
  edits.filterMap Edit.segment?

/-- One of the segments that are added spans the whole range. -/
def Lands (edits : List Edit) (address : UInt64) (size : Nat) : Prop :=
  ∃ s ∈ added edits, s.Spans address size

instance (edits : List Edit) (address : UInt64) (size : Nat) :
    Decidable (Lands edits address size) :=
  inferInstanceAs (Decidable (∃ s ∈ added edits, _))

/-- The byte that was written last at an address, the latest edit standing first. A patch counts
if it landed in a segment of the edits before it. -/
def lastWritten? (address : UInt64) : List Edit → Option UInt8
  | [] => none
  | .segment _ _ _ :: older => lastWritten? address older
  | .patch start bytes :: older =>
    if Lands older start bytes.size then
      (placed? bytes start address).or (lastWritten? address older)
    else lastWritten? address older

variable {edits : List Edit}

theorem added_concat (edits : List Edit) (e : Edit) :
    added (edits ++ [e]) = added edits ++ e.segment?.toList := by
  rw [added, List.filterMap_append]
  cases e <;> rfl

theorem mem_added_reverse {s : Segment} : s ∈ added edits.reverse ↔ s ∈ added edits := by
  rw [added, List.filterMap_reverse, List.mem_reverse, added]

theorem lands_reverse_iff {address : UInt64} {size : Nat} :
    Lands edits.reverse address size ↔ Lands edits address size := by
  simp only [Lands, mem_added_reverse]

theorem build_concat (edits : List Edit) (e : Edit) :
    build (edits ++ [e]) = (build edits).apply e :=
  List.foldl_append

/-- Bytes are written at addresses of segments only. -/
theorem lands_of_lastWritten? {address : UInt64} {b : UInt8}
    (h : lastWritten? address edits = some b) : Lands edits address 1 := by
  induction edits with
  | nil => simp [lastWritten?] at h
  | cons e older ih =>
    cases e with
    | segment base bytes access =>
      obtain ⟨s, hs, hspans⟩ := ih h
      exact ⟨s, List.mem_cons_of_mem _ hs, hspans⟩
    | patch start bytes =>
      by_cases hland : Lands older start bytes.size
      · rw [lastWritten?, if_pos hland] at h
        cases hplaced : placed? bytes start address with
        | none =>
          rw [hplaced, Option.none_or] at h
          exact ih h
        | some c =>
          obtain ⟨s, hs, hlow, hhigh⟩ := hland
          have hin : ¬ placed? bytes start address = none := by simp [hplaced]
          rw [placed?_eq_none_iff] at hin
          refine ⟨s, hs, ?_⟩
          rw [Segment.Spans]
          omega
      · rw [lastWritten?, if_neg hland] at h
        exact ih h

/-- The segments are those that were added, with what was written last laid over them. -/
theorem segments_build (hfits : ∀ s ∈ added edits, s.Fits)
    (hapart : (added edits).Pairwise Segment.Apart) :
    (build edits).segments =
      (added edits).map (Segment.overlay fun x => lastWritten? x edits.reverse) := by
  induction edits using List.reverseRecOn with
  | nil => rfl
  | append_singleton edits e ih =>
    rw [added_concat] at hfits hapart ⊢
    obtain ⟨hold, -, hlast⟩ := List.pairwise_append.1 hapart
    have hsegments := ih (fun s hs => hfits s (List.mem_append_left _ hs)) hold
    rw [build_concat, List.reverse_append, List.map_append]
    cases e with
    | segment base bytes access =>
      -- No patch has been written where the new segment is.
      have hnew : Segment.overlay (fun x => lastWritten? x edits.reverse) ⟨base, bytes, access⟩ =
          ⟨base, bytes, access⟩ := by
        refine Segment.overlay_of_none (hfits _ (by simp [Edit.segment?])) ?_
        intro x hx
        cases hlw : lastWritten? x edits.reverse with
        | none => rfl
        | some b =>
          obtain ⟨s, hs, hspans⟩ := lands_reverse_iff.1 (lands_of_lastWritten? hlw)
          exact absurd hx (hlast s hs _ (by simp [Edit.segment?]) x hspans)
      have hadd : ((build edits).apply (.segment base bytes access)).segments =
          (build edits).segments ++ [⟨base, bytes, access⟩] := rfl
      rw [hadd, hsegments]
      exact congrArg (fun s => _ ++ [s]) hnew.symm
    | patch start bytes =>
      have hpatch : ((build edits).apply (.patch start bytes)).segments =
          patchFirst start bytes (build edits).segments := rfl
      have hlaid : (fun x => lastWritten? x ([Edit.patch start bytes].reverse ++ edits.reverse)) =
          fun x => if Lands edits start bytes.size then
            (placed? bytes start x).or (lastWritten? x edits.reverse)
          else lastWritten? x edits.reverse := by
        simp only [List.reverse_singleton, List.singleton_append, lastWritten?, lands_reverse_iff]
      have hnone : (Edit.patch start bytes).segment?.toList = [] := rfl
      rw [hpatch, hsegments, hlaid, hnone, List.map_nil, List.append_nil]
      rw [hnone, List.append_nil] at hfits
      by_cases hland : Lands edits start bytes.size
      · simp only [if_pos hland]
        exact patchFirst_overlay hfits hold hland
      · simp only [if_neg hland]
        refine patchFirst_eq_self fun s hs hspans => hland ?_
        obtain ⟨t, ht, rfl⟩ := List.mem_map.1 hs
        exact ⟨t, ht, Segment.spans_overlay.1 hspans⟩

/-- An address lies in one segment at most. -/
theorem eq_of_spans {ss : List Segment} (hapart : ss.Pairwise Segment.Apart) {s t : Segment}
    (hs : s ∈ ss) (ht : t ∈ ss) {address : UInt64} (hspanss : s.Spans address 1)
    (hspanst : t.Spans address 1) : s = t := by
  obtain ⟨before, after, rfl⟩ := List.append_of_mem hs
  obtain ⟨-, hafter, hbefore⟩ := List.pairwise_append.1 hapart
  rcases List.mem_append.1 ht with ht | ht
  · exact absurd hspanss (hbefore t ht s List.mem_cons_self address hspanst)
  · rcases List.mem_cons.1 ht with rfl | ht
    · rfl
    · exact absurd hspanst ((List.pairwise_cons.1 hafter).1 t ht address hspanss)

theorem regions_build (edits : List Edit) :
    (build edits).regions = (added edits).map Segment.region := by
  induction edits using List.reverseRecOn with
  | nil => rfl
  | append_singleton edits e ih =>
    rw [build_concat, added_concat, List.map_append, ← ih]
    cases e with
    | segment base bytes access => exact List.map_append
    | patch start bytes =>
      rw [apply, map_region_patch]
      exact (List.append_nil _).symm

/-- Where the segments lie is decided when they are added. -/
theorem lands_of_spans {s : Segment} (hs : s ∈ (build edits).segments) {address : UInt64}
    {size : Nat} (h : s.Spans address size) : Lands edits address size := by
  have hregion : s.region ∈ (added edits).map Segment.region := by
    rw [← regions_build]
    exact List.mem_map_of_mem hs
  obtain ⟨t, ht, heq⟩ := List.mem_map.1 hregion
  refine ⟨t, ht, ?_⟩
  rw [Segment.spans_iff_region, heq]
  exact h

theorem size_build (edits : List Edit) :
    (build edits).size = (added edits).foldl (fun n s => n + s.bytes.size) 0 := by
  have hsize : ∀ ss : List Segment, ss.foldl (fun n s => n + s.bytes.size) 0 =
      (ss.map Segment.region).foldl (fun n r => n + r.len) 0 := by
    intro ss
    rw [List.foldl_map]
    rfl
  have hregions : (build edits).segments.map Segment.region = _ := regions_build edits
  rw [size, hsize, hregions, ← hsize]

/-- A read gives the bytes that were written last, and otherwise those of the segment. -/
theorem read_build_of_spans (hfits : ∀ s ∈ added edits, s.Fits)
    (hapart : (added edits).Pairwise Segment.Apart) {s : Segment} (hs : s ∈ added edits)
    {address : UInt64} {size : Nat} (h : s.Spans address size) :
    ∃ bytes, (build edits).source.read address size = .ok bytes ∧ bytes.size = size
      ∧ ∀ i < size, at? bytes i = (lastWritten? (address + UInt64.ofNat i) edits.reverse).or
          (s.byte? (address + UInt64.ofNat i)) := by
  have hsegments := segments_build hfits hapart
  obtain ⟨bytes, hread⟩ : ∃ bytes, (build edits).source.read address size = .ok bytes := by
    refine read_isOk_iff.2 ⟨_, hsegments ▸ List.mem_map_of_mem hs, ?_⟩
    rw [Segment.region_overlay]
    exact (Segment.containsRange_region_iff (hfits s hs)).2 h
  obtain ⟨_, hsegment, hsize, hbytes⟩ := at?_read hread
  refine ⟨bytes, hread, hsize, fun i hi => ?_⟩
  obtain ⟨t, ht, rfl⟩ := List.mem_map.1 (hsegments ▸ mem_of_segment? hsegment)
  have htfits := hfits t ht
  have hspans := Segment.spans_overlay.1
    (Segment.spans_of_containsRange (containsRange_of_segment? hsegment))
  have hnext : (address + UInt64.ofNat i).toNat = address.toNat + i := by
    rw [Segment.Fits] at htfits
    rw [Segment.Spans] at hspans
    exact toNat_add_ofNat (by omega)
  have hone : ∀ u : Segment, u.Spans address size → u.Spans (address + UInt64.ofNat i) 1 := by
    intro u hu
    rw [Segment.Spans] at hu ⊢
    omega
  obtain rfl := eq_of_spans hapart hs ht (hone s h) (hone t hspans)
  obtain ⟨b, hb⟩ := Segment.exists_byte?_of_spans (hone s h)
  rw [hbytes i hi, Segment.byte?_overlay, hb]
  cases lastWritten? (address + UInt64.ofNat i) edits.reverse <;> rfl

theorem read_build_of_not_lands {address : UInt64} {size : Nat}
    (h : ¬ Lands edits address size) :
    (build edits).source.read address size = .error ⟨address, .notMapped size⟩ := by
  have hnone : (build edits).segment? address size = none := by
    refine List.find?_eq_none.2 fun s hs hrange => h ?_
    exact lands_of_spans hs (Segment.spans_of_containsRange hrange)
  simp only [source, hnone]

/-- A patch that does not land is as good as not made. -/
theorem build_of_not_lands {before after : List Edit} {start : UInt64} {bytes : ByteArray}
    (h : ¬ Lands before start bytes.size) :
    build (before ++ .patch start bytes :: after) = build (before ++ after) := by
  have hsame : (build before).apply (.patch start bytes) = build before := by
    exact congrArg Snapshot.mk (patchFirst_eq_self fun s hs hspans => h (lands_of_spans hs hspans))
  rw [build, build, List.foldl_append, List.foldl_append, List.foldl_cons]
  exact congrArg (fun m => List.foldl apply m after) hsame

/-! ## Bounds -/

/-- A segment with the region that was kept for it when it was added. -/
structure Kept where
  region : Region
  segment : Segment

/-- A segment as it is kept when it is added. -/
def keep (s : Segment) : Kept :=
  ⟨s.region, s⟩

/-- A patch written over a segment with both ends checked: none if it would leave the bytes. -/
def Kept.overwrite? (k : Kept) (address : UInt64) (patch : ByteArray) : Option Kept :=
  if k.region.base ≤ address
      ∧ address.toNat - k.region.base.toNat + patch.size ≤ k.segment.bytes.size then
    some { k with segment := k.segment.overwrite (address.toNat - k.region.base.toNat) patch }
  else none

/-- The first segment whose kept region holds the whole range is written over, with both ends
checked. -/
def patchKept? (address : UInt64) (patch : ByteArray) : List Kept → Option (List Kept)
  | [] => some []
  | k :: rest =>
    if k.region.containsRange address patch.size then
      (k.overwrite? address patch).map (· :: rest)
    else (patchKept? address patch rest).map (k :: ·)

/-- One edit more of kept segments. -/
def applyKept? (ks : List Kept) : Edit → Option (List Kept)
  | .segment base bytes access => some (ks ++ [keep ⟨base, bytes, access⟩])
  | .patch address bytes => patchKept? address bytes ks

/-- What edits leave, if every patch is written within the bytes of its segment. -/
def buildKept? (edits : List Edit) : Option (List Kept) :=
  edits.foldlM applyKept? []

theorem overwrite?_keep {s : Segment} {address : UInt64} {patch : ByteArray}
    (h : s.region.containsRange address patch.size = true) :
    (keep s).overwrite? address patch = some (keep (s.overwrite (s.place address) patch)) := by
  have hroom := Segment.place_add_le h
  have hbase : s.base ≤ address := UInt64.le_iff_toNat_le.2 (Region.containsRange_iff.1 h).1
  have hplace : s.place address = address.toNat - s.base.toNat :=
    UInt64.toNat_sub_of_le _ _ hbase
  have hkept : (keep s).region.base = s.base ∧ (keep s).segment = s := ⟨rfl, rfl⟩
  rw [Kept.overwrite?, hkept.1, hkept.2, ← hplace, if_pos ⟨hbase, hroom⟩]
  exact congrArg (fun r => some (Kept.mk r _)) (Segment.region_overwrite hroom).symm

theorem patchKept?_keep (address : UInt64) (patch : ByteArray) (ss : List Segment) :
    patchKept? address patch (ss.map keep) = some ((patchFirst address patch ss).map keep) := by
  induction ss with
  | nil => rfl
  | cons s rest ih =>
    have hregion : (keep s).region = s.region := rfl
    rw [List.map_cons, patchKept?, patchFirst, hregion]
    by_cases h : s.region.containsRange address patch.size = true
    · rw [if_pos h, if_pos h, overwrite?_keep h]
      rfl
    · rw [if_neg h, if_neg h, ih]
      rfl

theorem applyKept?_keep (m : Snapshot) (e : Edit) :
    applyKept? (m.segments.map keep) e = some ((m.apply e).segments.map keep) := by
  cases e with
  | segment base bytes access =>
    have hlist : (m.apply (.segment base bytes access)).segments =
        m.segments ++ [⟨base, bytes, access⟩] := rfl
    rw [hlist, List.map_append]
    rfl
  | patch start bytes => exact patchKept?_keep start bytes m.segments

/-- No patch leaves the bytes of its segment, and the kept regions stay those of the bytes. -/
theorem buildKept?_eq (edits : List Edit) :
    buildKept? edits = some ((build edits).segments.map keep) := by
  have hgo : ∀ m : Snapshot, edits.foldlM applyKept? (m.segments.map keep) =
      some ((edits.foldl apply m).segments.map keep) := by
    induction edits with
    | nil => exact fun m => rfl
    | cons e edits ih =>
      intro m
      rw [List.foldlM_cons, applyKept?_keep]
      exact ih (m.apply e)
  exact hgo empty

/-- What reads make of kept segments, with both ends of each cut checked: `fault` if a cut would
leave the bytes. -/
def readKept (ks : List Kept) (fault : Except ReadFault ByteArray) : Source where
  read address size :=
    match ks.find? fun k => k.region.containsRange address size with
    | some k =>
      match sliceAt? k.segment.bytes k.region.base address size with
      | some bytes => .ok bytes
      | none => fault
    | none => .error ⟨address, .notMapped size⟩

theorem readKept_keep (m : Snapshot) (fault : Except ReadFault ByteArray) :
    readKept (m.segments.map keep) fault = m.source := by
  rw [← guarded_eq_source m fault, readKept, guarded, Source.mk.injEq]
  funext address size
  have hregion : ((fun k : Kept => k.region.containsRange address size) ∘ keep) =
      fun s : Segment => s.region.containsRange address size := rfl
  rw [List.find?_map, hregion, segment?]
  cases m.segments.find? fun s => s.region.containsRange address size <;> rfl

/-! ## A byte map with patches -/

/-- The edits leave a byte map with patches. -/
structure Reflects (edits : List Edit) : Prop where
  /-- No edit leaves the bytes of a segment, and each kept region stays as long as its bytes. -/
  kept : ∀ before, before <+: edits → ∃ ks, buildKept? before = some ks
    ∧ ks.map Kept.segment = (build before).segments
    ∧ ∀ k ∈ ks, k.region.len = k.segment.bytes.size
  /-- No read leaves the bytes of a segment: what would come of it makes no difference. -/
  source_eq : ∀ ks fault, buildKept? edits = some ks → (build edits).source = readKept ks fault
  regions_eq : (build edits).regions = (added edits).map Segment.region
  size_eq : (build edits).size = (added edits).foldl (fun n s => n + s.bytes.size) 0
  /-- A range within a segment reads as what was written last, and as it was added elsewhere. -/
  read_eq_ok : ∀ s ∈ added edits, ∀ address size, s.Spans address size →
    ∃ bytes, (build edits).source.read address size = .ok bytes ∧ bytes.size = size
      ∧ ∀ i < size, at? bytes i = (lastWritten? (address + UInt64.ofNat i) edits.reverse).or
          (s.byte? (address + UInt64.ofNat i))
  read_eq_error : ∀ address size, ¬ Lands edits address size →
    (build edits).source.read address size = .error ⟨address, .notMapped size⟩
  /-- A patch outside of all segments, or across the end of one, changes nothing. -/
  left_out : ∀ before start bytes after, edits = before ++ .patch start bytes :: after →
    ¬ Lands before start bytes.size → build edits = build (before ++ after)

/-- Segments that share no address and end below the top of the address space are a byte map
with patches, whatever was patched before, between and after them. -/
theorem reflects_build (edits : List Edit) (hfits : ∀ s ∈ added edits, s.Fits)
    (hapart : (added edits).Pairwise Segment.Apart) : Reflects edits where
  kept before _ := by
    refine ⟨_, buildKept?_eq before, ?_, ?_⟩
    · rw [List.map_map]
      exact List.map_id _
    · intro k hk
      obtain ⟨s, -, rfl⟩ := List.mem_map.1 hk
      rfl
  source_eq ks fault h := by
    obtain rfl := Option.some.inj ((buildKept?_eq edits).symm.trans h)
    exact (readKept_keep _ fault).symm
  regions_eq := regions_build edits
  size_eq := size_build edits
  read_eq_ok _ hs _ _ h := read_build_of_spans hfits hapart hs h
  read_eq_error _ _ h := read_build_of_not_lands h
  left_out _ _ _ _ hedits h := by
    rw [hedits]
    exact build_of_not_lands h

/-- Two segments one behind the other. A patch within the first is written over in part. None of the
patches across an end lands, not even the one that both segments hold together. -/
def patched : List Edit :=
  [.segment 0x1000 ⟨#[1, 2, 3, 4]⟩ .code, .patch 0x1001 ⟨#[0xAA, 0xBB]⟩,
    .patch 0x1003 ⟨#[7, 7]⟩, .segment 0x1004 ⟨#[5, 6]⟩ .data, .patch 0x1003 ⟨#[8, 8]⟩,
    .patch 0x1002 ⟨#[0xCC]⟩, .patch 0x1005 ⟨#[9, 9]⟩]

theorem reflects_build_patched :
    Reflects patched
    ∧ (build patched).source.read 0x1000 4 = .ok ⟨#[1, 0xAA, 0xCC, 4]⟩
    ∧ (build patched).source.read 0x1003 2 = .error ⟨0x1003, .notMapped 2⟩ := by
  have hapart : (added patched).Pairwise Segment.Apart := by
    refine List.pairwise_pair.2 ?_
    rintro address ⟨-, hhigh⟩ ⟨hlow, -⟩
    have hend : address.toNat + 1 ≤ 0x1000 + 4 := hhigh
    have hbase : 0x1004 ≤ address.toNat := hlow
    omega
  exact ⟨reflects_build patched (by decide) hapart, by decide, by decide⟩

end Snapshot

end SigScan
