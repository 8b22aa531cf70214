/-
SigScan.Proofs.Scan.Gap — matches over memory that comes back short.

A walk goes on by the number of bytes asked for, but carries the bytes that came back. What
is carried over a chunk that came back short is therefore taken to stand higher than it
does, by as many bytes as are lacking. The loop invariant is `at?_received`: every byte in
front of a chunk came back, and its address is right up to what the chunks since then lack.

So every literal byte of a match did come back; it came back for its own address if no
chunk is short but the last of the region and those in front of a chunk that cannot be read
(`unique_cameBack`). Elsewhere a match may be put together across a gap
(`not_unique_returned`).
-/
import SigScan.Proofs.Scan.Occurrence

namespace SigScan

open Bytes

/-- No read is answered with more bytes than were asked for. -/
def Source.Bounded (m : Source) : Prop :=
  ∀ address size bytes, m.read address size = .ok bytes → bytes.size ≤ size

namespace Scan

/-! ## Bytes that came back -/

/-- Byte `b` came back for an address, in some chunk of the region that was read. -/
def Returned (m : Source) (config : Config) (r : Region) (address : UInt64) (b : UInt8) : Prop :=
  ∃ k < chunkCount config r, ∃ bytes i, chunkRead m config r k = .ok bytes
    ∧ at? bytes i = some b ∧ address = chunkAddress config r k + UInt64.ofNat i

/-- Bytes that chunk `k` was asked for and did not give. -/
def lacking (m : Source) (config : Config) (r : Region) (k : Nat) : Nat :=
  match chunkRead m config r k with
  | .error _ => chunkLen config r k
  | .ok bytes => chunkLen config r k - bytes.size

/-- Bytes that the `n` chunks from chunk `k` on lack together. -/
def gap (m : Source) (config : Config) (r : Region) (k : Nat) : Nat → Nat
  | 0 => 0
  | n + 1 => gap m config r k n + lacking m config r (k + n)

/-- What a walk at chunk `last` takes for byte `b` at an address: the byte came back in a chunk
`k` from which on all chunks were read, and for an address that is lower by the bytes that
these chunks lack. -/
def CameBack (m : Source) (config : Config) (r : Region) (last : Nat) (address : UInt64)
    (b : UInt8) : Prop :=
  ∃ k n, k + n = last ∧ (∀ j < n, ChunkRead m config r (k + j)) ∧
    ∃ bytes i, chunkRead m config r k = .ok bytes ∧ at? bytes i = some b ∧
      address = chunkAddress config r k + UInt64.ofNat i + UInt64.ofNat (gap m config r k n)

/-- No chunk of the region comes back short but its last one and those in front of a chunk that
cannot be read. -/
def Gapless (m : Source) (config : Config) (r : Region) : Prop :=
  ∀ k bytes, k + 1 < chunkCount config r → chunkRead m config r k = .ok bytes →
    ChunkRead m config r (k + 1) → bytes.size = chunkLen config r k

section

variable {m : Source} {config : Config} {r : Region}

theorem chunkAddress_succ (config : Config) (r : Region) (k : Nat) :
    chunkAddress config r (k + 1) = chunkAddress config r k + UInt64.ofNat config.step := by
  rw [chunkAddress, chunkAddress, Nat.succ_mul, UInt64.ofNat_add, UInt64.add_assoc]

theorem size_le_chunkLen (hm : m.Bounded) {k : Nat} {bytes : ByteArray}
    (h : chunkRead m config r k = .ok bytes) : bytes.size ≤ chunkLen config r k :=
  hm _ _ _ h

theorem lacking_eq {k : Nat} {bytes : ByteArray} (h : chunkRead m config r k = .ok bytes) :
    lacking m config r k = chunkLen config r k - bytes.size := by
  rw [lacking, h]

theorem CameBack.here {k : Nat} {bytes : ByteArray} (h : chunkRead m config r k = .ok bytes)
    {i : Nat} {b : UInt8} (hb : at? bytes i = some b) :
    CameBack m config r k (chunkAddress config r k + UInt64.ofNat i) b := by
  refine ⟨k, 0, rfl, ?_, bytes, i, h, hb, ?_⟩
  · intro j hj
    contradiction
  · simp [gap]

/-- Going on by one chunk moves what is carried up by the bytes that this chunk lacks. -/
theorem CameBack.succ {k : Nat} {address : UInt64} {b : UInt8}
    (h : CameBack m config r k address b) (hread : ChunkRead m config r k) :
    CameBack m config r (k + 1) (address + UInt64.ofNat (lacking m config r k)) b := by
  obtain ⟨c, n, rfl, hall, bytes, i, hc, hb, rfl⟩ := h
  refine ⟨c, n + 1, rfl, ?_, bytes, i, hc, hb, ?_⟩
  · intro j hj
    rcases Nat.lt_succ_iff_lt_or_eq.1 hj with hj | rfl
    · exact hall j hj
    · exact hread
  · rw [gap, UInt64.ofNat_add, UInt64.add_assoc]

/-- In the bytes that are searched for chunk `k`, those behind the carried ones are its own. -/
theorem cameBack_append {k : Nat} {bytes : ByteArray} (hread : chunkRead m config r k = .ok bytes)
    {tail : ByteArray}
    (htail : ∀ p b, at? tail p = some b →
      CameBack m config r k
        (chunkAddress config r k - UInt64.ofNat tail.size + UInt64.ofNat p) b)
    {p : Nat} {b : UInt8} (h : at? (tail ++ bytes) p = some b) :
    CameBack m config r k
      (chunkAddress config r k - UInt64.ofNat tail.size + UInt64.ofNat p) b := by
  rw [at?_append] at h
  by_cases hp : p < tail.size
  · rw [if_pos hp] at h
    exact htail p b h
  · rw [if_neg hp] at h
    have haddress : chunkAddress config r k - UInt64.ofNat tail.size + UInt64.ofNat p =
        chunkAddress config r k + UInt64.ofNat (p - tail.size) := by
      rw [UInt64.ofNat_sub (Nat.le_of_not_lt hp)]
      grind
    rw [haddress]
    exact .here hread h

/-- Each byte in front of a chunk came back, for an address that is lower by what the chunks
since then lack. -/
theorem at?_received (hm : m.Bounded) {k : Nat} (hk : k < chunkCount config r) {p : Nat}
    {b : UInt8} (h : at? (received m config r k) p = some b) :
    CameBack m config r k
      (chunkAddress config r k - UInt64.ofNat (received m config r k).size + UInt64.ofNat p) b := by
  induction k generalizing p b with
  | zero => simp [received, at?] at h
  | succ k ih =>
    rw [received] at h ⊢
    cases hread : chunkRead m config r k with
    | error fault => simp [hread, at?] at h
    | ok bytes =>
      simp only [hread] at h ⊢
      have hback := (cameBack_append hread (fun p b => ih (Nat.lt_of_succ_lt hk)) h).succ
        ⟨bytes, hread⟩
      -- Chunk `k` is not the last one, so a whole step was asked for.
      have hfull : chunkLen config r k = config.step := by
        have hlt := lt_chunkCount_iff.1 hk
        rw [Nat.succ_mul] at hlt
        exact chunkLen_of_le (by omega)
      have hsize := size_le_chunkLen hm hread
      rw [hfull] at hsize
      rw [lacking_eq hread, hfull, UInt64.ofNat_sub hsize] at hback
      rw [chunkAddress_succ, ByteArray.size_append, UInt64.ofNat_add]
      have haddress : chunkAddress config r k + UInt64.ofNat config.step -
            (UInt64.ofNat (received m config r k).size + UInt64.ofNat bytes.size) +
            UInt64.ofNat p =
          chunkAddress config r k - UInt64.ofNat (received m config r k).size + UInt64.ofNat p +
            (UInt64.ofNat config.step - UInt64.ofNat bytes.size) := by
        grind
      rw [haddress]
      exact hback

/-! ## Where nothing is lacking -/

theorem gap_eq_zero (h : Gapless m config r) {k n : Nat} (hlast : k + n < chunkCount config r)
    (hread : ∀ j ≤ n, ChunkRead m config r (k + j)) : gap m config r k n = 0 := by
  induction n with
  | zero => rfl
  | succ n ih =>
    obtain ⟨bytes, hbytes⟩ := hread n (by omega)
    have hsize := h (k + n) bytes hlast hbytes (hread (n + 1) (by omega))
    rw [gap, ih (by omega) fun j hj => hread j (by omega), lacking_eq hbytes, hsize]
    simp

/-- Without a gap a byte came back for the very address it is taken for. -/
theorem CameBack.returned (h : Gapless m config r) {last : Nat}
    (hlast : last < chunkCount config r) (hread : ChunkRead m config r last)
    {address : UInt64} {b : UInt8} (hb : CameBack m config r last address b) :
    Returned m config r address b := by
  obtain ⟨k, n, rfl, hall, bytes, i, hbytes, hat, rfl⟩ := hb
  have hzero : gap m config r k n = 0 := by
    refine gap_eq_zero h hlast ?_
    intro j hj
    rcases Nat.lt_or_eq_of_le hj with hj | rfl
    · exact hall j hj
    · exact hread
  refine ⟨k, by omega, bytes, i, hbytes, hat, ?_⟩
  rw [hzero]
  simp

/-! ## Matches -/

/-- The literal bytes of a match that ends in a chunk came back. -/
theorem cameBack_of_mem_chunkMatches (hm : m.Bounded) {tokens : Pattern} {s : Signature}
    (hs : Signature.Compiles tokens s) {k : Nat} (hk : k < chunkCount config r) {hit : Match}
    (h : hit ∈ chunkMatches m config r s k) :
    hit.region = r ∧ ChunkRead m config r k ∧ ∀ j b, tokens[j]? = some (.byte b) →
      CameBack m config r k (hit.address + UInt64.ofNat j) b := by
  rw [chunkMatches] at h
  cases hread : chunkRead m config r k with
  | error fault => simp [hread] at h
  | ok bytes =>
    simp only [hread, found, List.mem_map, mem_starts, Window.behind] at h
    obtain ⟨p, ⟨-, hfit, hmatch⟩, rfl⟩ := h
    refine ⟨rfl, ⟨bytes, hread⟩, ?_⟩
    intro j b hb
    have hat := (hs.matchesAt_iff hfit).1 hmatch j b hb
    have hback := cameBack_append hread (fun p b => at?_received hm hk) hat
    rwa [UInt64.ofNat_add, ← UInt64.add_assoc] at hback

/-- The match of a unique result is one of the matches that the pass tallied. -/
theorem mem_passMatches_of_unique {regions : List Region} {signatures : List Signature} {i : Nat}
    {s : Signature} (hi : signatures[i]? = some s) {hit : Match}
    (h : (scan m config regions signatures)[i]? = some (.unique hit)) :
    hit ∈ passMatches m config regions s := by
  have hresult : (Tally.ofMatches (passMatches m config regions s)).result = .unique hit := by
    rw [← result_read_eq m config regions (List.mem_of_getElem? hi)]
    simpa [scan, hi] using h
  rw [Tally.result_ofMatches] at hresult
  split at hresult
  · contradiction
  · next a hmatches =>
    obtain rfl := Result.unique.inj hresult
    rw [hmatches]
    exact List.mem_singleton_self a
  · contradiction

end

/-- Every literal byte of a unique match came back, and its address is right up to what the
chunks between it and the end of the match lack; without a gap in the region it came back
for its own address. -/
theorem unique_cameBack (m : Source) (hm : m.Bounded) (config : Config) (regions : List Region)
    (signatures : List Signature) (i : Nat) (s : Signature) (tokens : Pattern) (hit : Match)
    (hi : signatures[i]? = some s) (hs : Signature.Compiles tokens s)
    (h : (scan m config regions signatures)[i]? = some (.unique hit)) :
    hit.region ∈ regions ∧ Scannable config hit.region
    ∧ (∃ last < chunkCount config hit.region, ChunkRead m config hit.region last ∧
        ∀ j b, tokens[j]? = some (.byte b) →
          CameBack m config hit.region last (hit.address + UInt64.ofNat j) b)
    ∧ (Gapless m config hit.region → ∀ j b, tokens[j]? = some (.byte b) →
        Returned m config hit.region (hit.address + UInt64.ofNat j) b) := by
  have hmem := mem_passMatches_of_unique hi h
  rw [passMatches, List.mem_flatMap] at hmem
  obtain ⟨r, hr, hmem⟩ := hmem
  obtain ⟨last, hlast, hmem⟩ := List.mem_flatMap.1 hmem
  obtain ⟨hr, hadmits⟩ := List.mem_filter.1 hr
  have hlast := List.mem_range.1 hlast
  obtain ⟨rfl, hread, hback⟩ := cameBack_of_mem_chunkMatches hm hs hlast hmem
  refine ⟨hr, admits_iff.1 hadmits, ⟨last, hlast, hread, hback⟩, ?_⟩
  intro hgap j b hb
  exact (hback j b hb).returned hgap hlast hread

theorem bounded_ofContents (contents : UInt64 → UInt8) :
    (Source.ofContents contents).Bounded := by
  intro address size bytes h
  simp only [Source.ofContents] at h
  split at h
  · contradiction
  · obtain rfl := Except.ok.inj h
    simp [ByteArray.size]

theorem gapless_of_answers {m : Source} {config : Config} {contents : UInt64 → UInt8} {r : Region}
    (h : Answers m config contents r) : Gapless m config r := by
  intro k bytes hk hread _
  exact (h k (Nat.lt_of_succ_lt hk) bytes hread).1

/-- In memory that holds every address as its byte, both literal bytes of `03 ?? 05` came back
for their own addresses, in different chunks. -/
theorem unique_cameBack_gapSignature :
    (scan (.ofContents UInt64.toUInt8) ⟨2, false⟩ [⟨0, 8, .code⟩] [gapSignature])[0]? =
        some (.unique ⟨3, ⟨0, 8, .code⟩⟩)
    ∧ Returned (.ofContents UInt64.toUInt8) ⟨2, false⟩ ⟨0, 8, .code⟩ 3 3
    ∧ Returned (.ofContents UInt64.toUInt8) ⟨2, false⟩ ⟨0, 8, .code⟩ 5 5 := by
  have hscan : (scan (.ofContents UInt64.toUInt8) ⟨2, false⟩ [⟨0, 8, .code⟩] [gapSignature])[0]? =
      some (.unique ⟨3, ⟨0, 8, .code⟩⟩) := by
    decide
  obtain ⟨-, -, -, hreturned⟩ := unique_cameBack (.ofContents UInt64.toUInt8)
    (bounded_ofContents _) ⟨2, false⟩ [⟨0, 8, .code⟩] [gapSignature] 0 gapSignature _ _ rfl
    compiles_gapSignature hscan
  have hgapless := gapless_of_answers (answers_ofContents UInt64.toUInt8 ⟨2, false⟩ ⟨0, 8, .code⟩)
  exact ⟨hscan, hreturned hgapless 0 3 rfl, hreturned hgapless 2 5 rfl⟩

/-! ## Memory with a gap -/

/-- Memory that holds `11 22 33 44` from 0x1000 on and keeps back the last byte of what is
asked for there. -/
def cutShort : Source where
  read address size :=
    if address = 0x1000 then .ok (slice ⟨#[0x11, 0x22, 0x33, 0x44]⟩ 0 (size - 1))
    else if address = 0x1002 then .ok (slice ⟨#[0x33, 0x44]⟩ 0 size)
    else .error ⟨address, .notMapped size⟩

theorem bounded_cutShort : cutShort.Bounded := by
  intro address size bytes h
  simp only [cutShort] at h
  split at h
  · obtain rfl := Except.ok.inj h
    simp [slice]
  split at h
  · obtain rfl := Except.ok.inj h
    simp [slice]
  · contradiction

/-- The signature of `11 33`, which stands nowhere in that memory. -/
def skippingSignature : Signature :=
  ⟨"11 33", [⟨0x3311, 0xFFFF⟩], 2, 0, .direct, 0, 0x11⟩

theorem compiles_skippingSignature :
    Signature.Compiles [.byte 0x11, .byte 0x33] skippingSignature :=
  ⟨"11 33", none, rfl, rfl⟩

/-- Not every literal byte of a unique match came back for its own address: in chunks of two
bytes `11` and `33` are put together across the byte that is kept back, and `11` is taken
to stand at 0x1001. -/
theorem not_unique_returned :
    ¬ ∀ (m : Source) (config : Config) (regions : List Region) (signatures : List Signature),
      m.Bounded → (∀ r ∈ regions, r.base.toNat + r.len ≤ UInt64.size) →
      ∀ (i : Nat) (s : Signature) (tokens : Pattern) (hit : Match), signatures[i]? = some s →
        Signature.Compiles tokens s →
        (scan m config regions signatures)[i]? = some (.unique hit) →
        ∀ (j : Nat) (b : UInt8), tokens[j]? = some (.byte b) →
          ∃ r ∈ regions, Returned m config r (hit.address + UInt64.ofNat j) b := by
  intro h
  have hreturned := h cutShort ⟨2, false⟩ [⟨0x1000, 4, .code⟩] [skippingSignature] bounded_cutShort
    (by decide) 0 skippingSignature _ ⟨0x1001, ⟨0x1000, 4, .code⟩⟩ rfl compiles_skippingSignature
    (by decide) 0 0x11 rfl
  obtain ⟨r, hr, k, hk, bytes, n, hread, hat, haddress⟩ := hreturned
  obtain rfl := List.mem_singleton.1 hr
  have hcount : chunkCount ⟨2, false⟩ ⟨0x1000, 4, .code⟩ = 2 := by decide
  rw [hcount] at hk
  match k, hk with
  | 0, _ =>
    have hbytes : bytes = ⟨#[0x11]⟩ := (Except.ok.inj hread).symm
    have hn : n < 1 := by
      rw [hbytes, at?] at hat
      split at hat
      · assumption
      · contradiction
    obtain rfl : n = 0 := by omega
    contradiction
  | 1, _ =>
    have hbytes : bytes = ⟨#[0x33, 0x44]⟩ := (Except.ok.inj hread).symm
    rw [hbytes, at?_eq_getElem?] at hat
    have hmem : (0x11 : UInt8) ∈ toList ⟨#[0x33, 0x44]⟩ := List.mem_of_getElem? hat
    exact absurd hmem (by decide)

end Scan

end SigScan
