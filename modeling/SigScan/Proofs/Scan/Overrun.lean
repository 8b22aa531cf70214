/-
SigScan.Proofs.Scan.Overrun — when a scan is stopped.

A scan whose additions are checked reports what the scan reports that takes addresses around
the top of the address space, or it is stopped (`run_eq_ok_iff`). It goes on exactly if all
numbers that it works with fit (`Fits`): each chunk of each scanned region must be reached
(`through_eq_ok_iff`, by induction on the chunks), and each match must start at an address.

Over memory that never answers with more than was asked for, what is carried into a chunk was
read behind the base of the region (`size_tail_walk_le`), so a scan of regions that end within
the address space is never stopped (`Fits.of_le_size`).
-/
import SigScan.Proofs.Scan.Gap
import SigScan.Scan.Run

namespace SigScan.Scan

section

variable {m : Source} {config : Config} {overlap : Nat} {r : Region}

/-! ## Chunks that are reached -/

/-- Chunk `k` starts at an address, and so do the bytes that are carried into it. -/
structure ChunkFits (m : Source) (config : Config) (overlap : Nat) (r : Region) (k : Nat) :
    Prop where
  start_lt : r.base.toNat + k * config.step < UInt64.size
  carried_le : ∀ bytes, chunkRead m config r k = .ok bytes →
    (walk m config overlap r k).tail.size ≤ (chunkAddress config r k).toNat

/-- One step of a checked walk is that of the walk, where the chunk fits. -/
theorem step_eq_ok_iff {k : Nat} {w : Walk} :
    (walk m config overlap r k).step m config overlap r k = .ok w ↔
      ChunkFits m config overlap r k ∧ w = walk m config overlap r (k + 1) := by
  rw [walk_succ]
  unfold Walk.step
  dsimp only
  by_cases hstart : UInt64.size ≤ r.base.toNat + k * config.step
  · rw [if_pos hstart]
    simp only [reduceCtorEq, false_iff, not_and]
    intro hfits
    exact absurd hfits.start_lt (Nat.not_lt.2 hstart)
  rw [if_neg hstart]
  have hlt := Nat.lt_of_not_le hstart
  rw [← chunkAddress, ← chunkLen, ← chunkRead]
  cases hread : chunkRead m config r k with
  | error fault =>
    have hfits : ChunkFits m config overlap r k := ⟨hlt, fun bytes h => by simp [hread] at h⟩
    simp only [Except.ok.injEq, hfits, true_and]
    exact eq_comm
  | ok bytes =>
    by_cases hcarried :
        (chunkAddress config r k).toNat < (walk m config overlap r k).tail.size
    · simp only [if_pos hcarried, reduceCtorEq, false_iff, not_and]
      intro hfits
      exact absurd (hfits.carried_le bytes hread) (Nat.not_le.2 hcarried)
    · have hfits : ChunkFits m config overlap r k := ⟨hlt, fun _ _ => Nat.le_of_not_lt hcarried⟩
      simp only [if_neg hcarried, Except.ok.injEq, hfits, true_and]
      exact eq_comm

/-- A checked walk is the walk, where all its chunks fit. -/
theorem through_eq_ok_iff {count k : Nat} {w : Walk} :
    Walk.through m config overlap r count k (walk m config overlap r k) = .ok w ↔
      (∀ j, k ≤ j → j < k + count → ChunkFits m config overlap r j)
        ∧ w = walk m config overlap r (k + count) := by
  induction count generalizing k with
  | zero =>
    simp only [Walk.through, Except.ok.injEq, Nat.add_zero]
    refine ⟨fun h => ⟨fun j hk hj => absurd hj (Nat.not_lt.2 hk), h.symm⟩, fun h => h.2.symm⟩
  | succ count ih =>
    rw [Walk.through]
    cases hstep : (walk m config overlap r k).step m config overlap r k with
    | error overrun =>
      simp only [reduceCtorEq, false_iff, not_and]
      intro hfits
      have hok := step_eq_ok_iff.2 ⟨hfits k (Nat.le_refl k) (by omega), rfl⟩
      rw [hstep] at hok
      contradiction
    | ok walk' =>
      obtain ⟨hfits, rfl⟩ := step_eq_ok_iff.1 hstep
      rw [show k + (count + 1) = k + 1 + count by omega]
      refine ih.trans (and_congr_left fun _ => ⟨fun h j hk hj => ?_, fun h j hk hj => ?_⟩)
      · rcases Nat.eq_or_lt_of_le hk with rfl | hlt
        · exact hfits
        · exact h j hlt hj
      · exact h j (by omega) hj

theorem through_start_eq_ok_iff {w : Walk} :
    Walk.through m config overlap r (chunkCount config r) 0 .start = .ok w ↔
      (∀ k < chunkCount config r, ChunkFits m config overlap r k)
        ∧ w = walk m config overlap r (chunkCount config r) := by
  rw [← show walk m config overlap r 0 = Walk.start from rfl, through_eq_ok_iff]
  simp only [Nat.zero_le, true_implies, Nat.zero_add]

/-! ## Passes that are read -/

/-- The windows of every region are read, where all chunks fit. -/
theorem readParts_eq_ok_iff {wanted : Array Bool} {rs : List Region}
    {parts : List (Region × List IndexedWindow)} :
    Pass.readParts m config overlap wanted rs = .ok parts ↔
      (∀ r ∈ rs, ∀ k < chunkCount config r, ChunkFits m config overlap r k)
        ∧ parts = rs.map fun r =>
          (r, (windows m config overlap r).map (IndexedWindow.ofWindow wanted)) := by
  induction rs generalizing parts with
  | nil => simp [Pass.readParts, eq_comm]
  | cons r rs ih =>
    rw [Pass.readParts]
    cases hr : Walk.through m config overlap r (chunkCount config r) 0 .start with
    | error overrun =>
      simp only [reduceCtorEq, List.forall_mem_cons, false_iff, not_and]
      intro hfits
      have hok := through_start_eq_ok_iff.2 ⟨hfits.1, rfl⟩
      rw [hr] at hok
      contradiction
    | ok w =>
      obtain ⟨hfits, rfl⟩ := through_start_eq_ok_iff.1 hr
      cases hrs : Pass.readParts m config overlap wanted rs with
      | error overrun =>
        simp only [reduceCtorEq, List.forall_mem_cons, false_iff, not_and]
        intro hall
        have hok := ih.2 ⟨hall.2, rfl⟩
        rw [hrs] at hok
        contradiction
      | ok rest =>
        obtain ⟨hrest, rfl⟩ := ih.1 hrs
        simp only [Except.ok.injEq, List.forall_mem_cons, List.map_cons]
        exact ⟨fun h => ⟨⟨hfits, hrest⟩, h.symm⟩, fun h => h.2.symm⟩

/-- Nothing stops a window whose matches all start at addresses. -/
theorem overrun?_eq_none_iff {signatures : List Signature} {w : IndexedWindow} :
    w.overrun? signatures = none ↔
      ∀ s ∈ signatures, ∀ p ∈ starts s w.window, w.window.origin.toNat + p < UInt64.size := by
  unfold IndexedWindow.overrun?
  dsimp only
  split
  · next hend =>
    simp only [true_iff]
    intro s _ p hp
    have hfit := (mem_starts.1 hp).2.1
    omega
  · simp only [List.findSome?_eq_none_iff, Option.map_eq_none_iff, List.find?_eq_none,
      decide_eq_true_eq, Nat.not_le, IndexedWindow.starts_eq]

/-! ## Scans that go on -/

theorem totalLen_filter_singleton_le (p : Region → Bool) (r : Region) :
    totalLen ([r].filter p) ≤ r.len := by
  rw [List.filter_singleton]
  cases p r with
  | false => exact Nat.zero_le _
  | true => exact Nat.le_of_eq (Nat.zero_add _)

/-- All numbers that a scan for the signatures works with fit in 64 bits. -/
structure Fits (m : Source) (config : Config) (regions : List Region)
    (signatures : List Signature) : Prop where
  total : totalLen (regions.filter config.admits) < UInt64.size
  chunk : ∀ r ∈ regions.filter config.admits, ∀ k < chunkCount config r,
    ChunkFits m config (Pass.overlap signatures) r k
  start : ∀ r ∈ regions.filter config.admits,
    ∀ w ∈ windows m config (Pass.overlap signatures) r, ∀ s ∈ signatures, ∀ p ∈ starts s w,
      w.origin.toNat + p < UInt64.size

variable {regions : List Region} {signatures : List Signature}

/-- No match of a pass stops it, where all of them start at addresses. -/
theorem overrun?_read_eq_none_iff :
    (Pass.read m config regions signatures).overrun? signatures = none ↔
      ∀ r ∈ regions.filter config.admits, ∀ w ∈ windows m config (Pass.overlap signatures) r,
        ∀ s ∈ signatures, ∀ p ∈ starts s w, w.origin.toNat + p < UInt64.size := by
  simp only [Pass.overrun?, Pass.read, List.findSome?_eq_none_iff, List.forall_mem_map,
    overrun?_eq_none_iff]
  rfl

/-- A checked scan reports what the scan reports, unless a number does not fit. -/
theorem run_eq_ok_iff {results : List Result} :
    run m config regions signatures = .ok results ↔
      (signatures = [] ∨ Fits m config regions signatures)
        ∧ results = scan m config regions signatures := by
  by_cases hnil : signatures = []
  · subst hnil
    simp [run, scan, eq_comm]
  have hempty : ¬ signatures.isEmpty = true := fun h => hnil (List.isEmpty_iff.1 h)
  simp only [run, if_neg hempty, hnil, false_or]
  by_cases htotal : UInt64.size ≤ totalLen (regions.filter config.admits)
  · rw [if_pos htotal]
    simp only [reduceCtorEq, false_iff, not_and]
    intro hfits
    exact absurd hfits.total (Nat.not_lt.2 htotal)
  rw [if_neg htotal]
  cases hread : Pass.readParts m config (Pass.overlap signatures) (Pass.anchors signatures)
      (regions.filter config.admits) with
  | error overrun =>
    simp only [reduceCtorEq, false_iff, not_and]
    intro hfits
    rw [readParts_eq_ok_iff.2 ⟨hfits.chunk, rfl⟩] at hread
    contradiction
  | ok parts =>
    obtain ⟨hchunk, hparts⟩ := readParts_eq_ok_iff.1 hread
    have hpass : (⟨parts⟩ : Pass) = Pass.read m config regions signatures :=
      congrArg Pass.mk hparts
    dsimp only
    rw [hpass]
    cases hover : (Pass.read m config regions signatures).overrun? signatures with
    | some overrun =>
      simp only [reduceCtorEq, false_iff, not_and]
      intro hfits
      rw [overrun?_read_eq_none_iff.2 hfits.start] at hover
      contradiction
    | none =>
      have hfits : Fits m config regions signatures :=
        ⟨Nat.lt_of_not_le htotal, hchunk, overrun?_read_eq_none_iff.1 hover⟩
      simp only [Except.ok.injEq, hfits, true_and]
      exact eq_comm

/-! ## Where windows end -/

/-- A chunk that starts at an address starts as far from the base as it does in the region. -/
theorem toNat_chunkAddress {k : Nat} (h : r.base.toNat + k * config.step < UInt64.size) :
    (chunkAddress config r k).toNat = r.base.toNat + k * config.step := by
  simp only [UInt64.size] at h
  rw [chunkAddress, UInt64.toNat_add, UInt64.toNat_ofNat']
  omega

/-- In a region that ends within the address space every chunk starts at an address. -/
theorem start_lt_of_le_size (htop : r.base.toNat + r.len ≤ UInt64.size) {k : Nat}
    (hk : k < chunkCount config r) : r.base.toNat + k * config.step < UInt64.size := by
  have hlt := lt_chunkCount_iff.1 hk
  omega

/-- What was received in front of a chunk was asked for behind the base of the region. -/
theorem size_received_le (hm : m.Bounded) (config : Config) (r : Region) (k : Nat) :
    (received m config r k).size ≤ k * config.step := by
  induction k with
  | zero => exact Nat.zero_le _
  | succ k ih =>
    rw [received]
    cases hread : chunkRead m config r k with
    | error fault => exact Nat.zero_le _
    | ok bytes =>
      have hsize := size_le_chunkLen hm hread
      have hstep := chunkLen_le config r k
      rw [Nat.succ_mul, ByteArray.size_append]
      omega

theorem size_tail_walk_le (hm : m.Bounded) (config : Config) (overlap : Nat) (r : Region)
    (k : Nat) : (walk m config overlap r k).tail.size ≤ k * config.step := by
  have hreceived := size_received_le hm config r k
  rw [tail_walk, Walk.size_lastBytes]
  omega

/-- Each window of a walk is the chunk that was read behind what was carried into it. -/
theorem mem_windows_walk {n : Nat} {w : Window} (h : w ∈ (walk m config overlap r n).windows) :
    ∃ k < n, ∃ bytes, chunkRead m config r k = .ok bytes
      ∧ w = .behind (walk m config overlap r k).tail (chunkAddress config r k) bytes := by
  induction n with
  | zero => contradiction
  | succ n ih =>
    rw [walk_succ] at h
    cases hread : chunkRead m config r n with
    | error fault =>
      rw [hread] at h
      obtain ⟨k, hk, hw⟩ := ih h
      exact ⟨k, by omega, hw⟩
    | ok bytes =>
      rw [hread] at h
      rcases List.mem_cons.1 h with rfl | h
      · exact ⟨n, by omega, bytes, hread, rfl⟩
      · obtain ⟨k, hk, hw⟩ := ih h
        exact ⟨k, by omega, hw⟩

/-- A window ends where the bytes end that came back for its chunk. -/
theorem end_of_mem_windows (hm : m.Bounded)
    (hstart : ∀ k < chunkCount config r, r.base.toNat + k * config.step < UInt64.size)
    {w : Window} (h : w ∈ windows m config overlap r) :
    ∃ k < chunkCount config r, ∃ bytes, chunkRead m config r k = .ok bytes
      ∧ w.origin.toNat + w.bytes.size = r.base.toNat + k * config.step + bytes.size := by
  obtain ⟨k, hk, bytes, hread, rfl⟩ := mem_windows_walk (List.mem_reverse.1 h)
  refine ⟨k, hk, bytes, hread, ?_⟩
  have haddress := toNat_chunkAddress (hstart k hk)
  have htail := size_tail_walk_le hm config overlap r k
  have hlt := (chunkAddress config r k).toNat_lt
  rw [Window.behind, ByteArray.size_append, UInt64.toNat_sub, UInt64.toNat_ofNat']
  omega

/-! ## Memory that never answers with more than was asked for -/

/-- A scan goes on if every chunk starts at an address and none is answered beyond the top of
the address space. -/
theorem Fits.of_chunks (hm : m.Bounded)
    (htotal : totalLen (regions.filter config.admits) < UInt64.size)
    (hstart : ∀ r ∈ regions.filter config.admits, ∀ k < chunkCount config r,
      r.base.toNat + k * config.step < UInt64.size)
    (hend : ∀ r ∈ regions.filter config.admits, ∀ k < chunkCount config r, ∀ bytes,
      chunkRead m config r k = .ok bytes →
        r.base.toNat + k * config.step + bytes.size ≤ UInt64.size)
    (hs : ∀ s ∈ signatures, 0 < s.rawLen) : Fits m config regions signatures where
  total := htotal
  chunk r hr k hk := by
    refine ⟨hstart r hr k hk, ?_⟩
    intro bytes _
    have htail := size_tail_walk_le hm config (Pass.overlap signatures) r k
    rw [toNat_chunkAddress (hstart r hr k hk)]
    omega
  start r hr w hw s hmem p hp := by
    obtain ⟨k, hk, bytes, hread, hwindow⟩ := end_of_mem_windows hm (hstart r hr) hw
    have htop := hend r hr k hk bytes hread
    have hfit := (mem_starts.1 hp).2.1
    have hpos := hs s hmem
    omega

/-- A scan of regions that end within the address space is never stopped for where they lie. -/
theorem Fits.of_le_size (hm : m.Bounded)
    (htotal : totalLen (regions.filter config.admits) < UInt64.size)
    (htop : ∀ r ∈ regions.filter config.admits, r.base.toNat + r.len ≤ UInt64.size)
    (hs : ∀ s ∈ signatures, 0 < s.rawLen) : Fits m config regions signatures := by
  refine .of_chunks hm htotal (fun r hr k hk => start_lt_of_le_size (htop r hr) hk) ?_ hs
  intro r hr k hk bytes hread
  have hlen := add_chunkLen_le hk
  have hsize := size_le_chunkLen hm hread
  have htop := htop r hr
  omega

end

end SigScan.Scan
