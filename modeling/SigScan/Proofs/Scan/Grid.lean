/-
SigScan.Proofs.Scan.Grid — where a signature is found in one region.

The memory under a region is described by a byte for each address; a chunk that could be
read shows exactly those bytes (`Answers`). The loop invariant of a walk is `received_spec`:
what is carried in front of a chunk reaches back to the last chunk that could not be read
and agrees with the memory. From it the starts found in a chunk are those whose last byte
lies there, whose chunks were all read, and whose literal bytes are in memory
(`mem_chunkStarts`), and over all chunks each such start is found once, in increasing order
(`mem_regionStarts`, `pairwise_regionStarts`).
-/
import SigScan.Proofs.Scan.Carry
import SigScan.Proofs.Signature.Matching

namespace SigScan.Scan

open Bytes

/-! ## Occurrences in a region -/

/-- The pattern stands in memory at a start, inside the region. -/
def Stands (contents : UInt64 → UInt8) (tokens : Pattern) (r : Region) (start : Nat) : Prop :=
  start + tokens.length ≤ r.len ∧
    ∀ i b, tokens[i]? = some (.byte b) → contents (r.base + UInt64.ofNat (start + i)) = b

/-- Chunk `k` of the region was read. -/
def ChunkRead (m : Source) (config : Config) (r : Region) (k : Nat) : Prop :=
  ∃ bytes, chunkRead m config r k = .ok bytes

/-- Every chunk of the region that meets the `size` bytes from a start on was read. -/
def Covered (m : Source) (config : Config) (r : Region) (start size : Nat) : Prop :=
  ∀ k < chunkCount config r, k * config.step < start + size →
    start < k * config.step + chunkLen config r k → ChunkRead m config r k

/-- Each chunk of the region is answered with an error or with the bytes in memory. -/
def Answers (m : Source) (config : Config) (contents : UInt64 → UInt8) (r : Region) : Prop :=
  ∀ k < chunkCount config r, ∀ bytes, chunkRead m config r k = .ok bytes →
    bytes.size = chunkLen config r k ∧
      ∀ i < bytes.size, at? bytes i = some (contents (chunkAddress config r k + UInt64.ofNat i))

/-! ## The chunk grid -/

section

variable {m : Source} {config : Config} {contents : UInt64 → UInt8} {r : Region}

theorem lt_chunkCount_iff {k : Nat} : k < chunkCount config r ↔ k * config.step < r.len := by
  have hpos := config.step_pos
  rw [chunkCount, ← Nat.succ_le_iff, Nat.le_div_iff_mul_le hpos, Nat.succ_mul]
  omega

theorem mul_step_mono (config : Config) {j k : Nat} (h : j ≤ k) :
    j * config.step ≤ k * config.step :=
  Nat.mul_le_mul_right _ h

theorem succ_mul_step_le (config : Config) {j k : Nat} (h : j < k) :
    j * config.step + config.step ≤ k * config.step := by
  rw [← Nat.succ_mul]
  exact mul_step_mono config h

theorem chunkLen_le (config : Config) (r : Region) (k : Nat) : chunkLen config r k ≤ config.step :=
  Nat.min_le_left _ _

theorem chunkLen_of_le {k : Nat} (h : k * config.step + config.step ≤ r.len) :
    chunkLen config r k = config.step := by
  rw [chunkLen]
  omega

theorem add_chunkLen_le {k : Nat} (h : k < chunkCount config r) :
    k * config.step + chunkLen config r k ≤ r.len := by
  rw [lt_chunkCount_iff] at h
  rw [chunkLen]
  omega

/-! ## What is carried in front of a chunk -/

/-- The bytes are those in memory that end at a place, counted from the region's base. -/
def EndsAt (contents : UInt64 → UInt8) (r : Region) (stop : Nat) (bytes : ByteArray) : Prop :=
  bytes.size ≤ stop ∧ ∀ i < bytes.size,
    at? bytes i = some (contents (r.base + UInt64.ofNat (stop - bytes.size + i)))

theorem EndsAt.append {stop : Nat} {a b : ByteArray} (ha : EndsAt contents r stop a)
    (hb : EndsAt contents r (stop + b.size) b) : EndsAt contents r (stop + b.size) (a ++ b) := by
  obtain ⟨hasize, ha⟩ := ha
  obtain ⟨-, hb⟩ := hb
  simp only [EndsAt, ByteArray.size_append]
  refine ⟨by omega, ?_⟩
  intro i hi
  rw [at?_append]
  by_cases hia : i < a.size
  · rw [if_pos hia, ha i hia, show stop + b.size - (a.size + b.size) = stop - a.size by omega]
  · rw [if_neg hia, hb _ (by omega),
      show stop + b.size - b.size + (i - a.size) = stop + b.size - (a.size + b.size) + i by omega]

/-- What a chunk is answered with ends where the chunk ends. -/
theorem Answers.endsAt (h : Answers m config contents r) {k : Nat} (hk : k < chunkCount config r)
    {bytes : ByteArray} (hread : chunkRead m config r k = .ok bytes) :
    bytes.size = chunkLen config r k ∧
      EndsAt contents r (k * config.step + bytes.size) bytes := by
  obtain ⟨hsize, hbytes⟩ := h k hk bytes hread
  refine ⟨hsize, Nat.le_add_left _ _, ?_⟩
  intro i hi
  rw [hbytes i hi, chunkAddress, UInt64.add_assoc, ← UInt64.ofNat_add, Nat.add_sub_cancel]

/-- What was received in front of chunk `k` ends where the chunk begins and reaches back to
a place exactly if all chunks from there on were read. -/
theorem received_spec (h : Answers m config contents r) {k : Nat}
    (hk : k * config.step ≤ r.len) :
    EndsAt contents r (k * config.step) (received m config r k) ∧
      ∀ start, k * config.step - (received m config r k).size ≤ start ↔
        ∀ j < k, start < j * config.step + config.step → ChunkRead m config r j := by
  have hpos := config.step_pos
  induction k with
  | zero => simp [received, EndsAt]
  | succ k ih =>
    rw [Nat.succ_mul] at hk ⊢
    obtain ⟨hends, hreach⟩ := ih (by omega)
    have hlt : k < chunkCount config r := lt_chunkCount_iff.2 (by omega)
    cases hread : chunkRead m config r k with
    | error fault =>
      have hnot : ¬ ChunkRead m config r k := by
        rintro ⟨bytes, hok⟩
        simp [hread] at hok
      simp only [received, hread, EndsAt, ByteArray.size_empty, Nat.sub_zero]
      refine ⟨⟨Nat.zero_le _, fun i hi => absurd hi (Nat.not_lt_zero i)⟩, ?_⟩
      intro start
      constructor
      · intro hle j hj hstart
        have := mul_step_mono config (Nat.le_of_lt_succ hj)
        omega
      · intro hall
        exact Nat.not_lt.1 fun hlt => hnot (hall k (Nat.lt_succ_self k) hlt)
    | ok bytes =>
      obtain ⟨hsize, hbytes⟩ := h.endsAt hlt hread
      rw [chunkLen_of_le hk] at hsize
      simp only [received, hread]
      refine ⟨hsize ▸ hends.append hbytes, ?_⟩
      intro start
      have heq : k * config.step + config.step - (received m config r k ++ bytes).size =
          k * config.step - (received m config r k).size := by
        rw [ByteArray.size_append]
        omega
      rw [heq, hreach]
      constructor
      · intro hall j hj hstart
        rcases Nat.lt_succ_iff_lt_or_eq.1 hj with hj | rfl
        · exact hall j hj hstart
        · exact ⟨bytes, hread⟩
      · intro hall j hj hstart
        exact hall j (Nat.lt_succ_of_lt hj) hstart

/-- The chunks that meet a stretch which ends in chunk `k` were read exactly if what is
carried in front of that chunk reaches back to its start. -/
theorem covered_iff (h : Answers m config contents r) {k : Nat} (hk : k < chunkCount config r)
    (hok : ChunkRead m config r k) {start size : Nat} (hlow : k * config.step < start + size)
    (hhigh : start + size ≤ k * config.step + chunkLen config r k) :
    Covered m config r start size ↔
      k * config.step - (received m config r k).size ≤ start := by
  have hlt := lt_chunkCount_iff.1 hk
  rw [(received_spec h (Nat.le_of_lt hlt)).2]
  constructor
  · intro hcov j hj hstart
    have hstep := succ_mul_step_le config hj
    refine hcov j (by omega) (by omega) ?_
    rwa [chunkLen_of_le (by omega)]
  · intro hall j hj hmeets hstart
    have hle := chunkLen_le config r k
    have hle' := chunkLen_le config r j
    rcases Nat.lt_trichotomy j k with hjk | rfl | hkj
    · exact hall j hjk (by omega)
    · exact hok
    · have := succ_mul_step_le config hkj
      omega

/-! ## Starts found in a chunk -/

/-- Where the matches that end in chunk `k` start, counted from the region's base. -/
def chunkStarts (m : Source) (config : Config) (r : Region) (s : Signature) (k : Nat) :
    List Nat :=
  match chunkRead m config r k with
  | .error _ => []
  | .ok bytes =>
    (starts s (.behind (received m config r k) (chunkAddress config r k) bytes)).map
      (k * config.step - (received m config r k).size + ·)

/-- The match of a start in a region. -/
def Match.ofStart (r : Region) (start : Nat) : Match :=
  ⟨r.base + UInt64.ofNat start, r⟩

theorem chunkMatches_eq (h : Answers m config contents r) (s : Signature) {k : Nat}
    (hk : k < chunkCount config r) :
    chunkMatches m config r s k = (chunkStarts m config r s k).map (Match.ofStart r) := by
  have hlt := lt_chunkCount_iff.1 hk
  obtain ⟨⟨hsize, -⟩, -⟩ := received_spec h (Nat.le_of_lt hlt)
  rw [chunkMatches, chunkStarts]
  cases chunkRead m config r k with
  | error fault => rfl
  | ok bytes =>
    simp only [found, List.map_map]
    apply List.map_congr_left
    intro p _
    have hadd : UInt64.ofNat (k * config.step) =
        UInt64.ofNat (k * config.step - (received m config r k).size) +
          UInt64.ofNat (received m config r k).size := by
      rw [← UInt64.ofNat_add, Nat.sub_add_cancel hsize]
    simp only [Function.comp_apply, Match.ofStart, Window.behind, chunkAddress, hadd,
      UInt64.ofNat_add, Match.mk.injEq, and_true]
    grind

/-- In bytes that end at a place, a signature matches exactly where its pattern stands. -/
theorem EndsAt.matchesAt_iff {stop : Nat} {bytes : ByteArray}
    (h : EndsAt contents r stop bytes) (hstop : stop ≤ r.len) {tokens : Pattern} {s : Signature}
    (hs : Signature.Compiles tokens s) {p : Nat} (hfit : p + s.rawLen ≤ bytes.size) :
    s.matchesAt bytes p = true ↔ Stands contents tokens r (stop - bytes.size + p) := by
  obtain ⟨hsize, hbytes⟩ := h
  have hlen := hs.rawLen_eq
  rw [hs.matchesAt_iff hfit, Stands]
  have hin : ∀ i b, tokens[i]? = some (.byte b) →
      (at? bytes (p + i) = some b ↔
        contents (r.base + UInt64.ofNat (stop - bytes.size + p + i)) = b) := by
    intro i b hb
    have hi : i < tokens.length := (List.getElem?_eq_some_iff.1 hb).1
    rw [hbytes _ (by omega), Option.some.injEq, Nat.add_assoc]
  constructor
  · intro hall
    exact ⟨by omega, fun i b hb => (hin i b hb).1 (hall i b hb)⟩
  · rintro ⟨-, hall⟩ i b hb
    exact (hin i b hb).2 (hall i b hb)

/-- In what is searched for chunk `k`, a signature matches exactly where its pattern stands. -/
theorem matchesAt_received (h : Answers m config contents r) {tokens : Pattern} {s : Signature}
    (hs : Signature.Compiles tokens s) {k : Nat} (hk : k < chunkCount config r)
    {bytes : ByteArray} (hread : chunkRead m config r k = .ok bytes) {p : Nat}
    (hfit : p + s.rawLen ≤ (received m config r k ++ bytes).size) :
    s.matchesAt (received m config r k ++ bytes) p = true ↔
      Stands contents tokens r (k * config.step - (received m config r k).size + p) := by
  have hend := add_chunkLen_le hk
  obtain ⟨hends, -⟩ := received_spec h (Nat.le_of_lt (lt_chunkCount_iff.1 hk))
  obtain ⟨hsize, hbytes⟩ := h.endsAt hk hread
  have hlost : k * config.step + bytes.size - (received m config r k ++ bytes).size =
      k * config.step - (received m config r k).size := by
    rw [ByteArray.size_append]
    omega
  rw [← hlost]
  exact (hends.append hbytes).matchesAt_iff (by omega) hs hfit

/-- A start is found in chunk `k` exactly if the pattern stands there, its chunks were read
and its last byte lies in the chunk. -/
theorem mem_chunkStarts (h : Answers m config contents r) {tokens : Pattern} {s : Signature}
    (hs : Signature.Compiles tokens s) {k : Nat} (hk : k < chunkCount config r) {start : Nat} :
    start ∈ chunkStarts m config r s k ↔
      Stands contents tokens r start ∧ Covered m config r start tokens.length
        ∧ k * config.step < start + tokens.length
        ∧ start + tokens.length ≤ k * config.step + chunkLen config r k := by
  have hlen := hs.rawLen_eq
  have hpos := hs.rawLen_pos
  rw [chunkStarts]
  cases hread : chunkRead m config r k with
  | error fault =>
    simp only [List.not_mem_nil, false_iff]
    rintro ⟨-, hcov, hlow, hhigh⟩
    obtain ⟨bytes, hok⟩ := hcov k hk hlow (by omega)
    simp [hread] at hok
  | ok bytes =>
    obtain ⟨⟨hrsize, -⟩, -⟩ := received_spec h (Nat.le_of_lt (lt_chunkCount_iff.1 hk))
    have hsize := (h.endsAt hk hread).1
    simp only [List.mem_map, mem_starts, Window.behind]
    constructor
    · rintro ⟨p, ⟨hseen, hfit, hmatch⟩, rfl⟩
      have hst := (matchesAt_received h hs hk hread hfit).1 hmatch
      rw [ByteArray.size_append] at hfit
      refine ⟨hst, (covered_iff h hk ⟨bytes, hread⟩ ?_ ?_).2 ?_, ?_, ?_⟩ <;> omega
    · rintro ⟨hst, hcovered, hlow, hhigh⟩
      have hle := (covered_iff h hk ⟨bytes, hread⟩ hlow hhigh).1 hcovered
      have hback : k * config.step - (received m config r k).size +
          (start - (k * config.step - (received m config r k).size)) = start := by
        omega
      have hfit : start - (k * config.step - (received m config r k).size) + s.rawLen ≤
          (received m config r k ++ bytes).size := by
        rw [ByteArray.size_append]
        omega
      refine ⟨_, ⟨by omega, hfit, (matchesAt_received h hs hk hread hfit).2 ?_⟩, hback⟩
      rwa [hback]

/-! ## Starts found in a region -/

/-- Where the matches in a region start, counted from its base, chunk by chunk. -/
def regionStarts (m : Source) (config : Config) (r : Region) (s : Signature) : List Nat :=
  (List.range (chunkCount config r)).flatMap (chunkStarts m config r s)

theorem flatMap_chunkMatches (h : Answers m config contents r) (s : Signature) :
    (List.range (chunkCount config r)).flatMap (chunkMatches m config r s) =
      (regionStarts m config r s).map (Match.ofStart r) := by
  rw [regionStarts, List.map_flatMap, List.flatMap_def, List.flatMap_def]
  refine congrArg List.flatten (List.map_congr_left ?_)
  intro k hk
  exact chunkMatches_eq h s (List.mem_range.1 hk)

/-- A region's starts are the places where the pattern stands and all of it was read. -/
theorem mem_regionStarts (h : Answers m config contents r) {tokens : Pattern} {s : Signature}
    (hs : Signature.Compiles tokens s) {start : Nat} :
    start ∈ regionStarts m config r s ↔
      Stands contents tokens r start ∧ Covered m config r start tokens.length := by
  simp only [regionStarts, List.mem_flatMap, List.mem_range]
  constructor
  · rintro ⟨k, hk, hmem⟩
    obtain ⟨hstands, hcov, -⟩ := (mem_chunkStarts h hs hk).1 hmem
    exact ⟨hstands, hcov⟩
  · rintro ⟨hstands, hcov⟩
    have hpos := hs.rawLen_pos
    have hstep := config.step_pos
    have hfit := hstands.1
    rw [hs.rawLen_eq] at hpos
    -- The chunk that holds the last byte.
    obtain ⟨k, hk⟩ : ∃ k, k = (start + tokens.length - 1) / config.step := ⟨_, rfl⟩
    have hdiv := Nat.div_add_mod (start + tokens.length - 1) config.step
    have hmod := Nat.mod_lt (start + tokens.length - 1) hstep
    rw [← hk, Nat.mul_comm] at hdiv
    have hcount : k < chunkCount config r := lt_chunkCount_iff.2 (by omega)
    refine ⟨k, hcount, (mem_chunkStarts h hs hcount).2 ⟨hstands, hcov, by omega, ?_⟩⟩
    rw [chunkLen]
    omega

theorem pairwise_starts (s : Signature) (w : Window) : (starts s w).Pairwise (· < ·) := by
  simp only [starts, placesFrom_eq_filter]
  exact (List.pairwise_lt_range' 1).filter _

theorem pairwise_chunkStarts (m : Source) (config : Config) (r : Region) (s : Signature) (k : Nat) :
    (chunkStarts m config r s k).Pairwise (· < ·) := by
  rw [chunkStarts]
  cases chunkRead m config r k with
  | error fault => exact List.Pairwise.nil
  | ok bytes =>
    rw [List.pairwise_map]
    refine (pairwise_starts s _).imp ?_
    intro p q hpq
    omega

/-- The starts of a region are listed in increasing order. -/
theorem pairwise_regionStarts (h : Answers m config contents r) {tokens : Pattern} {s : Signature}
    (hs : Signature.Compiles tokens s) : (regionStarts m config r s).Pairwise (· < ·) := by
  rw [regionStarts, List.pairwise_flatMap]
  refine ⟨fun k _ => pairwise_chunkStarts m config r s k, ?_⟩
  refine List.pairwise_lt_range.imp_of_mem ?_
  intro j k hj hk hjk a ha b hb
  -- The last byte of a match lies in one chunk only.
  obtain ⟨-, -, -, haend⟩ := (mem_chunkStarts h hs (List.mem_range.1 hj)).1 ha
  obtain ⟨-, -, hblow, -⟩ := (mem_chunkStarts h hs (List.mem_range.1 hk)).1 hb
  have hstep := succ_mul_step_le config hjk
  have hle := chunkLen_le config r j
  omega

theorem nodup_regionStarts (h : Answers m config contents r) {tokens : Pattern} {s : Signature}
    (hs : Signature.Compiles tokens s) : (regionStarts m config r s).Nodup :=
  (pairwise_regionStarts h hs).imp Nat.ne_of_lt

end

end SigScan.Scan
