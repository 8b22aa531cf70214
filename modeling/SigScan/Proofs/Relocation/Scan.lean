/-
SigScan.Proofs.Relocation.Scan — scanning memory at another place.

Chunks of a moved region are read where the chunks of the region are, moved, and the same
bytes come back. So a signature is found at the moved places (`passMatches_shift`), as often
as before, and its displacement leads to the moved address (`resolve_shift`). Together:
what a signature comes to in moved memory is what it comes to, moved (`ownOutcome_shift`).
-/
import SigScan.Proofs.Relocation.Memory
import SigScan.Proofs.Signature.Equivalence
import SigScan.Proofs.Scan.Group

namespace SigScan

namespace Scan

/-- The match `d` addresses further on. -/
def Match.shift (d : UInt64) (f : Match) : Match :=
  ⟨f.address + d, f.region.shift d⟩

/-- The result with its match, if there is a single one, `d` addresses further on. -/
def Result.shift (d : UInt64) : Result → Result
  | noMatch => noMatch
  | unique found => unique (found.shift d)
  | ambiguous count => ambiguous count

/-! ## Chunks -/

section

variable (m : Source) (config : Config) (d : UInt64) (r : Region)

theorem chunkAddress_shift (k : Nat) :
    chunkAddress config (r.shift d) k = chunkAddress config r k + d := by
  simp only [chunkAddress, Region.shift]
  grind

/-- A chunk of a moved region brings back the same bytes. -/
theorem chunkRead_shift (k : Nat) :
    chunkRead (m.shift d) config (r.shift d) k =
      (chunkRead m config r k).mapError (·.shift d) := by
  rw [chunkRead, chunkAddress_shift, Source.read_shift]
  rfl

theorem received_shift (k : Nat) :
    received (m.shift d) config (r.shift d) k = received m config r k := by
  induction k with
  | zero => rfl
  | succ k ih =>
    rw [received, received, chunkRead_shift, ih]
    cases chunkRead m config r k <;> rfl

theorem found_behind_shift (s : Signature) (tail : ByteArray) (address : UInt64)
    (bytes : ByteArray) :
    found s (r.shift d) (.behind tail (address + d) bytes) =
      (found s r (.behind tail address bytes)).map (Match.shift d) := by
  rw [found, found, List.map_map]
  -- The window holds the same bytes, so the places in it are the same.
  refine List.map_congr_left fun p _ => ?_
  simp only [Function.comp_apply, Window.behind, Match.shift, Match.mk.injEq, and_true]
  grind

theorem chunkMatches_shift (s : Signature) (k : Nat) :
    chunkMatches (m.shift d) config (r.shift d) s k =
      (chunkMatches m config r s k).map (Match.shift d) := by
  rw [chunkMatches, chunkMatches, chunkRead_shift, received_shift, chunkAddress_shift]
  cases chunkRead m config r k with
  | error fault => rfl
  | ok bytes => exact found_behind_shift d r s _ _ bytes

/-- A signature is found at the moved places, in the same order. -/
theorem passMatches_shift (regions : List Region) (s : Signature) :
    passMatches (m.shift d) config (regions.map (Region.shift d)) s =
      (passMatches m config regions s).map (Match.shift d) := by
  have hadmits : config.admits ∘ Region.shift d = config.admits := rfl
  simp only [passMatches, List.filter_map, List.flatMap_map, List.map_flatMap, hadmits,
    ← chunkMatches_shift]
  rfl

theorem scanOne_shift (regions : List Region) (s : Signature) :
    scanOne (m.shift d) config (regions.map (Region.shift d)) s =
      (scanOne m config regions s).shift d := by
  have hs := List.mem_singleton_self s
  rw [scanOne, scanOne, result_read_eq _ _ _ hs, result_read_eq _ _ _ hs, passMatches_shift,
    Tally.result_ofMatches, Tally.result_ofMatches]
  cases passMatches m config regions s with
  | nil => rfl
  | cons a rest =>
    cases rest with
    | nil => rfl
    | cons b rest => simp [Result.shift]

/-- A single match lies in one of the regions. -/
theorem region_mem_of_scanOne_eq {regions : List Region} {s : Signature} {a : Match}
    (h : scanOne m config regions s = .unique a) : a.region ∈ regions := by
  rw [scanOne, result_read_eq _ _ _ (List.mem_singleton_self s), Tally.result_ofMatches] at h
  have hmem : a ∈ passMatches m config regions s := by
    split at h
    · simp at h
    · next heq =>
      rw [heq, Result.unique.inj h]
      exact List.mem_singleton_self a
    · simp at h
  obtain ⟨r, hr, ha⟩ := List.mem_flatMap.1 hmem
  obtain ⟨k, -, ha⟩ := List.mem_flatMap.1 ha
  have hregion : a.region = r := by
    unfold chunkMatches at ha
    split at ha
    · simp at ha
    · obtain ⟨p, -, rfl⟩ := List.mem_map.1 ha
      rfl
  exact hregion ▸ (List.mem_filter.1 hr).1

end

end Scan

/-! ## Resolution -/

/-- The failure with its address, if it has one, `d` addresses further on. -/
def FailureKind.shift (d : UInt64) : FailureKind → FailureKind
  | noMatch => noMatch
  | ambiguous count => ambiguous count
  | outOfBounds address => outOfBounds (address + d)
  | unreadable address => unreadable (address + d)

/-- The outcome with its address `d` addresses further on. -/
def shiftOutcome (d : UInt64) (o : Except FailureKind UInt64) : Except FailureKind UInt64 :=
  (o.map (· + d)).mapError (·.shift d)

section

variable {m : Source} {d : UInt64}

/-- A displacement does not depend on the place of the memory, so it leads to the moved
address. -/
theorem target_shift (field : UInt64) (displacement : Int32) :
    target (field + d) displacement = target field displacement + d := by
  unfold target
  grind

theorem resolve_shift {found : Scan.Match} (h : found.region.Movable d) (s : Signature) :
    resolve (m.shift d) (found.shift d) s = shiftOutcome d (resolve m found s) := by
  have hfield : found.address + d + s.offset.toUInt64 =
      found.address + s.offset.toUInt64 + d := by
    grind
  simp only [resolve, follow, Scan.Match.shift, hfield]
  cases s.mode with
  | direct => rfl
  | relativeDisplacement =>
    simp only [Region.containsRange_shift h, Source.readInt32_shift]
    split
    · cases m.readInt32 (found.address + s.offset.toUInt64) with
      | error fault => rfl
      | ok displacement => exact congrArg Except.ok (target_shift _ displacement)
    · rfl

/-- What a signature comes to in moved memory is what it comes to, moved. -/
theorem Signature.ownOutcome_shift {regions : List Region} (h : ∀ r ∈ regions, r.Movable d)
    (config : Scan.Config) (s : Signature) :
    s.ownOutcome (m.shift d) config (regions.map (Region.shift d)) =
      shiftOutcome d (s.ownOutcome m config regions) := by
  unfold ownOutcome
  rw [Scan.scanOne_shift]
  cases hs : Scan.scanOne m config regions s with
  | noMatch => rfl
  | ambiguous count => rfl
  | unique found =>
    exact resolve_shift (h _ (Scan.region_mem_of_scanOne_eq m config hs)) s

end

end SigScan
