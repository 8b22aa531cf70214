/-
SigScan.Proofs.Scan.ChunkSize — what the chunk size changes over a snapshot.

A snapshot answers each read from the first segment that holds the whole range. Where
segments overlap, a short read may therefore be answered from another segment than a long one
at the same place. Only segments that are consulted at all matter here: one that lies within
an earlier one never answers. If the consulted segments agree wherever they overlap, all reads
show the same bytes, those of `contents` (`answers_contents`); and as long as no segment that
is scanned reaches the top of the address space, no read of a region fails
(`chunkRead_regions`). A scan then reports the places of the pattern in these bytes, for which
chunks do not matter (`scan_chunkSize`).

Both conditions are needed: a segment that hides the beginning of another with other bytes,
and a segment that takes in the last address there is, each make a match depend on the chunk
size (`not_scan_chunkSize`).
-/
import SigScan.Proofs.Memory.Extent
import SigScan.Proofs.Scan.Gap

namespace SigScan

open Bytes

/-! ## Segments that overlap -/

/-- The segments have the same byte at every address where both have one. -/
def Segment.Agrees (s t : Segment) : Prop :=
  ∀ address a b, s.byte? address = some a → t.byte? address = some b → a = b

/-- All addresses of `t` are addresses of `s`. -/
def Segment.Covers (s t : Segment) : Prop :=
  s.Spans t.base t.bytes.size

instance (s t : Segment) : Decidable (s.Covers t) :=
  inferInstanceAs (Decidable (s.Spans _ _))

namespace Snapshot

/-- Some read is answered from the segment. -/
def Consults (m : Snapshot) (s : Segment) : Prop :=
  ∃ address size, m.segment? address size = some s

/-- The segments that reads are answered from agree wherever they overlap. -/
def Coherent (m : Snapshot) : Prop :=
  ∀ s t, m.Consults s → m.Consults t → s.Agrees t

/-- The bytes of a snapshot, each as a read of this byte alone shows it. -/
def contents (m : Snapshot) (address : UInt64) : UInt8 :=
  ((m.segment? address 1).bind fun s => s.byte? address).getD 0

variable {m : Snapshot}

/-- A segment that is consulted is not covered by one before it. -/
theorem Consults.exists_append {s : Segment} (h : m.Consults s) :
    ∃ before after, m.segments = before ++ s :: after ∧ ∀ t ∈ before, ¬ t.Covers s := by
  obtain ⟨address, size, h⟩ := h
  have hrange := Region.containsRange_iff.1 (containsRange_of_segment? h)
  obtain ⟨-, before, after, hsegments, hbefore⟩ := List.find?_eq_some_iff_append.1 h
  refine ⟨before, after, hsegments, ?_⟩
  rintro t ht ⟨hlow, hhigh⟩
  have hcontains : t.region.containsRange address size = true := by
    simp only [Segment.region] at hrange
    simp only [Region.containsRange_iff, Segment.region]
    omega
  have hnot := hbefore t ht
  simp [hcontains] at hnot

/-- If each segment covers those behind it or agrees with them, the snapshot is coherent. -/
theorem coherent_of_pairwise (h : m.segments.Pairwise fun s t => s.Covers t ∨ s.Agrees t) :
    m.Coherent := by
  have hordered : ∀ {before s mid t after}, m.segments = before ++ s :: mid ++ t :: after →
      (∀ u ∈ before ++ s :: mid, ¬ u.Covers t) → s.Agrees t := by
    intro before s mid t after hsegments hnot
    rw [hsegments, List.pairwise_append] at h
    have hs : s ∈ before ++ s :: mid := by simp
    exact (h.2.2 s hs t List.mem_cons_self).resolve_left (hnot s hs)
  intro s t hs ht address a b ha hb
  obtain ⟨before, after, hsegments, hnot⟩ := hs.exists_append
  obtain ⟨before', after', hsegments', hnot'⟩ := ht.exists_append
  -- One of the two stands in front of the other, or they are the same.
  rcases List.append_eq_append_iff.1 (hsegments.symm.trans hsegments') with
    ⟨mid, rfl, htail⟩ | ⟨mid, rfl, htail⟩
  · cases mid with
    | nil =>
      obtain ⟨rfl, -⟩ := List.cons.inj htail
      exact Option.some.inj (ha.symm.trans hb)
    | cons u mid =>
      obtain ⟨rfl, -⟩ := List.cons.inj htail
      exact hordered hsegments' hnot' address a b ha hb
  · cases mid with
    | nil =>
      obtain ⟨rfl, -⟩ := List.cons.inj htail
      exact Option.some.inj (ha.symm.trans hb)
    | cons u mid =>
      obtain ⟨rfl, -⟩ := List.cons.inj htail
      exact (hordered hsegments hnot address b a hb ha).symm

/-- In a coherent snapshot the byte of a consulted segment is the byte of the snapshot. -/
theorem contents_eq (hm : m.Coherent) {s : Segment} (hs : m.Consults s) {address : UInt64}
    {b : UInt8} (hb : s.byte? address = some b)
    (htop : s.region.containsRange address 1 = true) : m.contents address = b := by
  obtain ⟨_, _, hsegment⟩ := hs
  cases ht : m.segment? address 1 with
  | none =>
    have hnone := List.find?_eq_none.1 ht s (mem_of_segment? hsegment)
    exact absurd htop hnone
  | some t =>
    have hspans := Segment.spans_of_containsRange (containsRange_of_segment? ht)
    obtain ⟨a, ha⟩ := Segment.exists_byte?_of_spans hspans
    have heq : a = b := hm t s ⟨_, _, ht⟩ ⟨_, _, hsegment⟩ address a b ha hb
    simp [contents, ht, ha, heq]

/-- Every read of a coherent snapshot that is answered shows the bytes of the snapshot. -/
theorem at?_read_contents (hm : m.Coherent) {address : UInt64} {size : Nat} {bytes : ByteArray}
    (h : m.source.read address size = .ok bytes) :
    bytes.size = size ∧
      ∀ i < size, at? bytes i = some (m.contents (address + UInt64.ofNat i)) := by
  obtain ⟨s, hs, hsize, hbytes⟩ := at?_read h
  refine ⟨hsize, ?_⟩
  intro i hi
  obtain ⟨hlow, hhigh, htop⟩ := Region.containsRange_iff.1 (containsRange_of_segment? hs)
  have hadd : (address + UInt64.ofNat i).toNat = address.toNat + i :=
    toNat_add_ofNat (by omega)
  have hone : s.region.containsRange (address + UInt64.ofNat i) 1 = true := by
    rw [Region.containsRange_iff, hadd]
    omega
  obtain ⟨b, hb⟩ := Segment.exists_byte?_of_spans (Segment.spans_of_containsRange hone)
  rw [hbytes i hi, hb, contents_eq hm ⟨_, _, hs⟩ hb hone]

end Snapshot

namespace Scan

/-! ## Reading the regions of a snapshot -/

section

variable {m : Snapshot} {config : Config}

theorem answers_contents (hm : m.Coherent) (config : Config) (r : Region) :
    Answers m.source config m.contents r := by
  intro k _ bytes hread
  obtain ⟨hsize, hbytes⟩ := Snapshot.at?_read_contents hm hread
  refine ⟨hsize, ?_⟩
  intro i hi
  exact hbytes i (hsize ▸ hi)

/-- Every chunk of a snapshot's own region can be read, as its segment holds all of it. -/
theorem chunkRead_regions (hfits : ∀ s ∈ m.segments, Scannable config s.region → s.Fits)
    {r : Region} (hr : r ∈ m.regions) (hscan : Scannable config r) {k : Nat}
    (hk : k < chunkCount config r) : ChunkRead m.source config r k := by
  obtain ⟨s, hs, rfl⟩ := List.mem_map.1 hr
  have hend : s.region.base.toNat + s.region.len < UInt64.size := hfits s hs hscan
  have hroom := add_chunkLen_le hk
  have haddress : (chunkAddress config s.region k).toNat =
      s.region.base.toNat + k * config.step :=
    toNat_add_ofNat (by omega)
  refine Snapshot.read_isOk_iff.2 ⟨s, hs, ?_⟩
  rw [Region.containsRange_iff, haddress]
  omega

end

/-! ## Results that report the same places -/

/-- The number of matches that a result speaks of. -/
def Result.count : Result → Nat
  | .noMatch => 0
  | .unique _ => 1
  | .ambiguous count => count

theorem Result.Reports.encard_eq {regions : List Region} {places : Set (Nat × Nat)} {a : Result}
    (h : a.Reports regions places) : places.encard = a.count := by
  cases a with
  | noMatch =>
    obtain rfl : places = ∅ := h
    exact Set.encard_empty
  | unique found =>
    obtain ⟨i, start, _, rfl, -⟩ := h
    exact Set.encard_singleton _
  | ambiguous count => exact h.2

/-- The places of a pattern determine the result that reports them. -/
theorem Result.Reports.eq {regions : List Region} {places : Set (Nat × Nat)} {a b : Result}
    (ha : a.Reports regions places) (hb : b.Reports regions places) : a = b := by
  have hcount : a.count = b.count := by
    exact_mod_cast ha.encard_eq.symm.trans hb.encard_eq
  cases a with
  | noMatch =>
    cases b with
    | noMatch => rfl
    | unique found => exact absurd hcount Nat.zero_ne_one
    | ambiguous count =>
      obtain rfl : 0 = count := hcount
      exact absurd hb.1 (by omega)
  | unique found =>
    cases b with
    | noMatch => exact absurd hcount Nat.one_ne_zero
    | unique found' =>
      obtain ⟨i, start, r, rfl, hr, rfl⟩ := ha
      obtain ⟨i', start', r', h, hr', rfl⟩ := hb
      obtain ⟨rfl, rfl⟩ := Prod.mk.inj (Set.singleton_injective h)
      obtain rfl := Option.some.inj (hr.symm.trans hr')
      rfl
    | ambiguous count =>
      obtain rfl : 1 = count := hcount
      exact absurd hb.1 (by omega)
  | ambiguous count =>
    cases b with
    | noMatch =>
      obtain rfl : count = 0 := hcount
      exact absurd ha.1 (by omega)
    | unique found =>
      obtain rfl : count = 1 := hcount
      exact absurd ha.1 (by omega)
    | ambiguous count' => exact congrArg Result.ambiguous hcount

/-! ## The chunk size -/

/-- A scan of the regions of a snapshot reports where the pattern stands in its bytes. -/
theorem reports_standings {m : Snapshot} {config : Config}
    (hfits : ∀ s ∈ m.segments, Scannable config s.region → s.Fits) (hm : m.Coherent)
    {tokens : Pattern} {signatures : List Signature} {s : Signature}
    (hs : Signature.Compiles tokens s) (hmem : s ∈ signatures) :
    ((Pass.read m.source config m.regions signatures).result s).Reports m.regions
      (standings config m.contents m.regions tokens) := by
  have hanswers : ∀ r ∈ m.regions, Scannable config r → Answers m.source config m.contents r :=
    fun r _ _ => answers_contents hm config r
  have hchunks : ∀ r ∈ m.regions, Scannable config r →
      ∀ k < chunkCount config r, ChunkRead m.source config r k :=
    fun r hr hscan k hk => chunkRead_regions hfits hr hscan hk
  rw [← occurrences_eq_standings tokens hchunks]
  exact reports_result_read hanswers hs hmem

/-- Over a snapshot whose scanned segments end below the top of the address space, and whose
segments agree wherever reads may come upon more than one of them, the chunk size changes no
result. -/
theorem scan_chunkSize (m : Snapshot) (config : Config)
    (hfits : ∀ s ∈ m.segments, Scannable config s.region → s.Fits) (hm : m.Coherent)
    (a b : Nat) (signatures : List Signature)
    (hs : ∀ s ∈ signatures, s.IsCompiled) :
    scan m.source { config with chunkSize := a } m.regions signatures =
      scan m.source { config with chunkSize := b } m.regions signatures := by
  refine List.map_congr_left ?_
  intro s hmem
  obtain ⟨tokens, htokens⟩ := (hs s hmem).exists_tokens
  have hreports : ∀ n, ((Pass.read m.source { config with chunkSize := n } m.regions
      signatures).result s).Reports m.regions
        (standings config m.contents m.regions tokens) := by
    intro n
    have hscanned : ∀ s ∈ m.segments, Scannable { config with chunkSize := n } s.region → s.Fits :=
      fun s hs hscan => hfits s hs hscan
    exact reports_standings hscanned hm htokens hmem
  exact (hreports a).eq (hreports b)

/-- `11 33 55`, with `22` within and `55 77` across its end. -/
def layered : Snapshot :=
  ⟨[⟨0x1000, ⟨#[0x11, 0x33, 0x55]⟩, .code⟩, ⟨0x1001, ⟨#[0x22]⟩, .code⟩,
    ⟨0x1002, ⟨#[0x55, 0x77]⟩, .code⟩]⟩

/-- The segment within is covered, and the other two agree where they overlap. -/
theorem coherent_layered : layered.Coherent := by
  refine Snapshot.coherent_of_pairwise ?_
  have hinner : Segment.Covers ⟨0x1000, ⟨#[0x11, 0x33, 0x55]⟩, .code⟩
      ⟨0x1001, ⟨#[0x22]⟩, .code⟩ := by
    decide
  have hend : Segment.Agrees ⟨0x1000, ⟨#[0x11, 0x33, 0x55]⟩, .code⟩
      ⟨0x1002, ⟨#[0x55, 0x77]⟩, .code⟩ := by
    intro address a b ha hb
    have hhigh : address.toNat + 1 ≤ 0x1000 + 3 := (Segment.spans_of_byte?_eq_some ha).2
    have hlow : 0x1002 ≤ address.toNat := (Segment.spans_of_byte?_eq_some hb).1
    have hshared : address.toNat = 0x1002 := by omega
    obtain rfl : address = 0x1002 := UInt64.toNat_inj.1 hshared
    exact Option.some.inj (ha.symm.trans hb)
  have hapart : Segment.Agrees ⟨0x1001, ⟨#[0x22]⟩, .code⟩
      ⟨0x1002, ⟨#[0x55, 0x77]⟩, .code⟩ := by
    intro address a b ha hb
    have hhigh : address.toNat + 1 ≤ 0x1001 + 1 := (Segment.spans_of_byte?_eq_some ha).2
    have hlow : 0x1002 ≤ address.toNat := (Segment.spans_of_byte?_eq_some hb).1
    omega
  simp [layered, hinner, hend, hapart]

/-- In these segments `11 33` is found once, read byte by byte or in one piece. -/
theorem scan_chunkSize_layered :
    scan layered.source ⟨1, false⟩ layered.regions [skippingSignature] =
        scan layered.source ⟨8, false⟩ layered.regions [skippingSignature]
    ∧ scan layered.source ⟨8, false⟩ layered.regions [skippingSignature] =
        [.unique ⟨0x1000, ⟨0x1000, 3, .code⟩⟩] := by
  have hfits : ∀ s ∈ layered.segments, s.Fits := by decide
  refine ⟨scan_chunkSize layered ⟨1, false⟩ (fun s hs _ => hfits s hs) coherent_layered 1 8
    [skippingSignature] ?_, by decide⟩
  intro s hs
  obtain rfl := List.mem_singleton.1 hs
  exact compiles_skippingSignature.isCompiled

/-! ## Where the chunk size matters -/

/-- `22` in front of `11 33`, both from the same address on. -/
def overlapping : List Snapshot.Edit :=
  [.segment 0x1000 ⟨#[0x22]⟩ .code, .segment 0x1000 ⟨#[0x11, 0x33]⟩ .code]

/-- `11 33` in front of the last address there is. -/
def uppermost : List Snapshot.Edit :=
  [.segment 0xFFFFFFFFFFFFFFFD ⟨#[0x11, 0x33, 0x00]⟩ .code]

/-- The chunk size changes results where segments overlap that do not agree, and where a segment
takes in the last address there is. Read in one piece the longer of two overlapping segments
shows its own bytes, but the shorter one in front of it answers for its first byte alone. And a
chunk that takes in the last address cannot be read, so the longer it is, the more is lost. -/
theorem not_scan_chunkSize :
    (¬ ∀ (edits : List Snapshot.Edit) (config : Config) (a b : Nat) (signatures : List Signature),
      (∀ s ∈ (Snapshot.build edits).segments, s.Fits) → (∀ s ∈ signatures, s.IsCompiled) →
      scan (Snapshot.build edits).source { config with chunkSize := a }
          (Snapshot.build edits).regions signatures =
        scan (Snapshot.build edits).source { config with chunkSize := b }
          (Snapshot.build edits).regions signatures)
    ∧ ¬ ∀ (edits : List Snapshot.Edit) (config : Config) (a b : Nat) (signatures : List Signature),
      (∀ s ∈ (Snapshot.build edits).segments, s.base.toNat + s.bytes.size ≤ UInt64.size) →
      (Snapshot.build edits).Coherent → (∀ s ∈ signatures, s.IsCompiled) →
      scan (Snapshot.build edits).source { config with chunkSize := a }
          (Snapshot.build edits).regions signatures =
        scan (Snapshot.build edits).source { config with chunkSize := b }
          (Snapshot.build edits).regions signatures := by
  have hcompiled : ∀ s ∈ [skippingSignature], s.IsCompiled := by
    intro s hs
    obtain rfl := List.mem_singleton.1 hs
    exact compiles_skippingSignature.isCompiled
  constructor
  · intro h
    have heq := h overlapping ⟨1, false⟩ 1 2 [skippingSignature] (by decide) hcompiled
    exact absurd heq (by decide)
  · intro h
    have hcoherent : (Snapshot.build uppermost).Coherent :=
      Snapshot.coherent_of_pairwise (List.pairwise_singleton _ _)
    have heq := h uppermost ⟨2, false⟩ 2 3 [skippingSignature] (by decide) hcoherent hcompiled
    exact absurd heq (by decide)

end Scan

end SigScan
