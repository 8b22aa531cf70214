/-
SigScan.Proofs.Scan.Occurrence — a pass reports exactly the occurrences.

An occurrence of a pattern is a place in the list of regions together with a start in that
region: the region is one that is scanned, the pattern fits and stands there in memory, and
every chunk that it touches was read. The result of a signature says that there is no
occurrence, which one there is, or how many there are (`scan_reports`), for any chunk size
and whichever reads fail. Where all reads succeed, the chunks no longer matter.
-/
import Mathlib.Data.Set.Card
import SigScan.Proofs.Scan.Grid
import SigScan.Proofs.Scan.Group

namespace SigScan.Scan

/-! ## Occurrences in a list of regions -/

/-- The region holds bytes, may be read, and is code if only code is asked for. -/
def Scannable (config : Config) (r : Region) : Prop :=
  0 < r.len ∧ r.access.readable = true ∧
    (config.executableOnly = true → r.access.executable = true)

theorem admits_iff {config : Config} {r : Region} :
    config.admits r = true ↔ Scannable config r := by
  unfold Config.admits Scannable
  cases config.executableOnly <;> simp [and_assoc]

/-- Where the pattern stands in the scanned regions: a place in the list and a start. -/
def standings (config : Config) (contents : UInt64 → UInt8) (regions : List Region)
    (tokens : Pattern) : Set (Nat × Nat) :=
  {o | ∃ r, regions[o.1]? = some r ∧ Scannable config r ∧ Stands contents tokens r o.2}

/-- Where the pattern stands and every chunk that it touches was read. -/
def occurrences (m : Source) (config : Config) (contents : UInt64 → UInt8)
    (regions : List Region) (tokens : Pattern) : Set (Nat × Nat) :=
  {o | ∃ r, regions[o.1]? = some r ∧ Scannable config r ∧ Stands contents tokens r o.2
    ∧ Covered m config r o.2 tokens.length}

/-- What a result says about the places of a pattern. -/
def Result.Reports (regions : List Region) (places : Set (Nat × Nat)) : Result → Prop
  | .noMatch => places = ∅
  | .unique found => ∃ i start r, places = {(i, start)} ∧ regions[i]? = some r
      ∧ found = ⟨r.base + UInt64.ofNat start, r⟩
  | .ambiguous count => 2 ≤ count ∧ places.encard = count

/-! ## The occurrences that a pass tallies -/

/-- The occurrences in the order of the tally, each with its match. -/
def placedMatches (m : Source) (config : Config) (regions : List Region) (s : Signature) :
    List ((Nat × Nat) × Match) :=
  (regions.zipIdx.filter fun p => config.admits p.1).flatMap fun p =>
    (regionStarts m config p.1 s).map fun start => ((p.2, start), Match.ofStart p.1 start)

section

variable {m : Source} {config : Config} {contents : UInt64 → UInt8} {regions : List Region}
  {tokens : Pattern} {s : Signature}

theorem map_snd_placedMatches
    (h : ∀ r ∈ regions, Scannable config r → Answers m config contents r) (s : Signature) :
    (placedMatches m config regions s).map Prod.snd = passMatches m config regions s := by
  have hregions : (regions.zipIdx.filter fun p => config.admits p.1).map Prod.fst =
      regions.filter config.admits := by
    rw [← Function.comp_def config.admits Prod.fst, ← List.filter_map, List.zipIdx_map_fst]
  rw [placedMatches, passMatches, ← hregions, List.flatMap_map, List.map_flatMap,
    List.flatMap_def, List.flatMap_def]
  refine congrArg List.flatten (List.map_congr_left ?_)
  intro p hp
  obtain ⟨hmem, hadmits⟩ := List.mem_filter.1 hp
  have hr : p.1 ∈ regions := List.mem_of_getElem? (List.mem_zipIdx_iff_getElem?.1 hmem)
  rw [flatMap_chunkMatches (h p.1 hr (admits_iff.1 hadmits)), List.map_map]
  rfl

theorem mem_placedMatches
    (h : ∀ r ∈ regions, Scannable config r → Answers m config contents r)
    (hs : Signature.Compiles tokens s) {o : Nat × Nat} {found : Match} :
    (o, found) ∈ placedMatches m config regions s ↔
      ∃ r, regions[o.1]? = some r ∧ Scannable config r ∧ Stands contents tokens r o.2
        ∧ Covered m config r o.2 tokens.length ∧ found = Match.ofStart r o.2 := by
  obtain ⟨i, start⟩ := o
  simp only [placedMatches, List.mem_flatMap, List.mem_filter, List.mem_zipIdx_iff_getElem?,
    List.mem_map, admits_iff, Prod.exists, Prod.mk.injEq]
  constructor
  · rintro ⟨r, j, ⟨hr, hscan⟩, start', hmem, ⟨rfl, rfl⟩, rfl⟩
    obtain ⟨hstands, hcov⟩ := (mem_regionStarts (h r (List.mem_of_getElem? hr) hscan) hs).1 hmem
    exact ⟨r, hr, hscan, hstands, hcov, rfl⟩
  · rintro ⟨r, hr, hscan, hstands, hcov, rfl⟩
    have hmem := (mem_regionStarts (h r (List.mem_of_getElem? hr) hscan) hs).2 ⟨hstands, hcov⟩
    exact ⟨r, i, ⟨hr, hscan⟩, start, hmem, ⟨rfl, rfl⟩, rfl⟩

theorem nodup_placedMatches
    (h : ∀ r ∈ regions, Scannable config r → Answers m config contents r)
    (hs : Signature.Compiles tokens s) :
    ((placedMatches m config regions s).map Prod.fst).Nodup := by
  rw [placedMatches, List.map_flatMap, List.Nodup, List.pairwise_flatMap]
  constructor
  · intro p hp
    obtain ⟨hmem, hadmits⟩ := List.mem_filter.1 hp
    have hr : p.1 ∈ regions := List.mem_of_getElem? (List.mem_zipIdx_iff_getElem?.1 hmem)
    rw [List.map_map, List.pairwise_map]
    refine (nodup_regionStarts (h p.1 hr (admits_iff.1 hadmits)) hs).imp ?_
    intro a b hab heq
    exact hab (Prod.mk.inj heq).2
  · have hidx : (regions.zipIdx.filter fun p => config.admits p.1).Pairwise
        fun p q => p.2 ≠ q.2 := by
      have hnodup : (regions.zipIdx.map Prod.snd).Nodup := by
        rw [List.zipIdx_map_snd]
        exact List.nodup_range'
      exact (List.pairwise_map.1 hnodup).filter _
    refine hidx.imp ?_
    intro p q hpq a ha b hb
    simp only [List.map_map, List.mem_map, Function.comp_apply] at ha hb
    obtain ⟨x, -, rfl⟩ := ha
    obtain ⟨y, -, rfl⟩ := hb
    intro heq
    exact hpq (Prod.mk.inj heq).1

/-- A tally reports the places that its matches stand for, each place once. -/
theorem reports_of_nodup {placed : List ((Nat × Nat) × Match)} {places : Set (Nat × Nat)}
    (hnodup : (placed.map Prod.fst).Nodup)
    (hplaces : ∀ o, o ∈ places ↔ o ∈ placed.map Prod.fst)
    (hmatch : ∀ p ∈ placed, ∃ r, regions[p.1.1]? = some r ∧ p.2 = Match.ofStart r p.1.2) :
    (Tally.ofMatches (placed.map Prod.snd)).result.Reports regions places := by
  rw [Tally.result_ofMatches]
  match placed with
  | [] =>
    refine Set.eq_empty_iff_forall_notMem.2 ?_
    intro o ho
    simpa using (hplaces o).1 ho
  | [p] =>
    obtain ⟨r, hr, hfound⟩ := hmatch p (List.mem_singleton_self p)
    refine ⟨p.1.1, p.1.2, r, ?_, hr, hfound⟩
    ext o
    simpa using hplaces o
  | p :: q :: rest =>
    refine ⟨by omega, ?_⟩
    have hset : places = (((p :: q :: rest).map Prod.fst).toFinset : Set (Nat × Nat)) := by
      ext o
      rw [List.coe_toFinset]
      exact hplaces o
    rw [hset, Set.encard_coe_eq_coe_finsetCard, List.toFinset_card_of_nodup hnodup,
      List.length_map, List.length_map]
    rfl

/-- In any pass that looks for a compiled signature its result reports the occurrences of
its pattern. -/
theorem reports_result_read
    (h : ∀ r ∈ regions, Scannable config r → Answers m config contents r)
    (hs : Signature.Compiles tokens s) {signatures : List Signature} (hmem : s ∈ signatures) :
    ((Pass.read m config regions signatures).result s).Reports regions
      (occurrences m config contents regions tokens) := by
  rw [result_read_eq m config regions hmem, ← map_snd_placedMatches h]
  refine reports_of_nodup (nodup_placedMatches h hs) (fun o => ?_) ?_
  · simp only [List.mem_map, Prod.exists, exists_and_right, exists_eq_right,
      mem_placedMatches h hs]
    constructor
    · rintro ⟨r, hr, hscan, hstands, hcov⟩
      exact ⟨_, r, hr, hscan, hstands, hcov, rfl⟩
    · rintro ⟨_, r, hr, hscan, hstands, hcov, rfl⟩
      exact ⟨r, hr, hscan, hstands, hcov⟩
  · rintro ⟨o, found⟩ hp
    obtain ⟨r, hr, -, -, -, hfound⟩ := (mem_placedMatches h hs).1 hp
    exact ⟨r, hr, hfound⟩

theorem occurrences_eq_standings (tokens : Pattern)
    (h : ∀ r ∈ regions, Scannable config r →
      ∀ k < chunkCount config r, ChunkRead m config r k) :
    occurrences m config contents regions tokens = standings config contents regions tokens := by
  ext o
  constructor
  · rintro ⟨r, hr, hscan, hstands, -⟩
    exact ⟨r, hr, hscan, hstands⟩
  · rintro ⟨r, hr, hscan, hstands⟩
    refine ⟨r, hr, hscan, hstands, ?_⟩
    intro k hk _ _
    exact h r (List.mem_of_getElem? hr) hscan k hk

end

/-! ## Exactness -/

/-- Over memory whose chunks are answered with an error or with its bytes, the result of
every signature of a group reports the occurrences of its pattern. Where every chunk is
read these are all places where the pattern stands, whatever the chunk size. -/
theorem scan_reports (m : Source) (config : Config) (contents : UInt64 → UInt8)
    (regions : List Region) (signatures : List Signature)
    (hanswers : ∀ r ∈ regions, Scannable config r → Answers m config contents r)
    (i : Nat) (s : Signature) (tokens : Pattern) (hi : signatures[i]? = some s)
    (hs : Signature.Compiles tokens s) :
    (∃ result, (scan m config regions signatures)[i]? = some result
      ∧ result.Reports regions (occurrences m config contents regions tokens))
    ∧ ((∀ r ∈ regions, Scannable config r → ∀ k < chunkCount config r, ChunkRead m config r k) →
        occurrences m config contents regions tokens =
          standings config contents regions tokens) := by
  refine ⟨⟨(Pass.read m config regions signatures).result s, ?_, ?_⟩, ?_⟩
  · rw [scan, List.getElem?_map, hi, Option.map_some]
  · exact reports_result_read hanswers hs (List.mem_of_getElem? hi)
  · exact occurrences_eq_standings tokens

/-- The address space of a process answers with its bytes or not at all. -/
theorem answers_ofContents (contents : UInt64 → UInt8) (config : Config) (r : Region) :
    Answers (.ofContents contents) config contents r := by
  intro k _ bytes hread
  simp only [chunkRead, Source.ofContents] at hread
  split at hread
  · simp at hread
  · obtain rfl := Except.ok.inj hread
    refine ⟨by simp [ByteArray.size], ?_⟩
    intro i hi
    rw [Bytes.at?, dif_pos hi]
    simp [ByteArray.getElem_eq_getElem_data]

/-- The signature of `03 ?? 05`. -/
def gapSignature : Signature :=
  ⟨"03 ?? 05", [⟨327683, 16711935⟩], 3, 0, .direct, 0, 3⟩

theorem compiles_gapSignature :
    Signature.Compiles [.byte 3, .any, .byte 5] gapSignature :=
  ⟨"03 ?? 05", none, by decide, by decide⟩

/-- Memory that holds every address as its byte, in chunks of two of which the first cannot
be read; the pattern is found across the border of the second and the third. -/
theorem scan_reports_gapSignature :
    (∃ result,
      (scan (.ofContents UInt64.toUInt8) ⟨2, false⟩ [⟨0, 8, .code⟩] [gapSignature])[0]? =
        some result
      ∧ result.Reports [⟨0, 8, .code⟩]
        (occurrences (.ofContents UInt64.toUInt8) ⟨2, false⟩ UInt64.toUInt8 [⟨0, 8, .code⟩]
          [.byte 3, .any, .byte 5]))
    ∧ (scan (.ofContents UInt64.toUInt8) ⟨2, false⟩ [⟨0, 8, .code⟩] [gapSignature])[0]? =
        some (.unique ⟨3, ⟨0, 8, .code⟩⟩) :=
  ⟨(scan_reports (.ofContents UInt64.toUInt8) ⟨2, false⟩ UInt64.toUInt8 [⟨0, 8, .code⟩]
    [gapSignature] (fun r _ _ => answers_ofContents _ _ r) 0 gapSignature _ rfl
    compiles_gapSignature).1, by decide⟩

end SigScan.Scan
