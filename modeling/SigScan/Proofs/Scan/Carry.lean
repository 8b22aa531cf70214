/-
SigScan.Proofs.Scan.Carry — what is carried from one window into the next.

A walk over a region keeps the last bytes that it received since the last chunk that
could not be read (`tail_walk`). How many it keeps depends on the longest signature of the
group, but a signature finds the same matches with any tail that is long enough for itself
(`found_behind`): a match ends in the new part, so it cannot start further back. The
matches of a region are therefore those of its chunks, each with all that was received in
front of it (`flatMap_found_windows`), whatever reads fail or come back short.
-/
import SigScan.Scan.Window

namespace SigScan

/-! ## Bytes seen from a later place -/

namespace Bytes

theorem ext_at? {a b : ByteArray} (h : ∀ i, at? a i = at? b i) : a = b := by
  have hl : toList a = toList b := by
    apply List.ext_getElem?
    intro i
    rw [← at?_eq_getElem?, ← at?_eq_getElem?, h i]
  exact ByteArray.ext (Array.toList_inj.1 hl)

theorem wordFrom_shift {a b : ByteArray} {d : Nat} (h : ∀ i, at? a (d + i) = at? b i)
    (count start : Nat) : wordFrom a count (d + start) = wordFrom b count start := by
  induction count generalizing start with
  | zero => rfl
  | succ n ih => rw [wordFrom, wordFrom, Nat.add_assoc, ih, atOrZero_eq, atOrZero_eq, h]

end Bytes

open Bytes

namespace Signature

theorem acceptsFrom_shift {a b : ByteArray} {d : Nat} (h : ∀ i, at? a (d + i) = at? b i)
    (words : List MaskedWord) (start : Nat) :
    acceptsFrom words a (d + start) = acceptsFrom words b start := by
  induction words generalizing start with
  | nil => rfl
  | cons w ws ih =>
    rw [acceptsFrom, acceptsFrom, wordAt, wordAt, wordFrom_shift h, Nat.add_assoc, ih]

/-- A signature sees only the bytes from its start on. -/
theorem matchesAt_shift {a b : ByteArray} {d : Nat} (h : ∀ i, at? a (d + i) = at? b i)
    (s : Signature) (start : Nat) : s.matchesAt a (d + start) = s.matchesAt b start := by
  have hb : holdsAt a (d + start + s.anchorIndex) s.anchorByte =
      holdsAt b (start + s.anchorIndex) s.anchorByte := by
    rw [Bool.eq_iff_iff, holdsAt_eq_true_iff, holdsAt_eq_true_iff, Nat.add_assoc, h]
  rw [matchesAt, matchesAt, hb, acceptsFrom_shift h]

end Signature

namespace Scan

/-! ## The last bytes -/

namespace Walk

theorem at?_lastBytes (count : Nat) (bytes : ByteArray) (i : Nat) :
    at? (lastBytes count bytes) i = at? bytes (bytes.size - count + i) := by
  rw [lastBytes, at?_extract]
  split
  · rfl
  · rw [at?, dif_neg (by omega)]

theorem size_lastBytes (count : Nat) (bytes : ByteArray) :
    (lastBytes count bytes).size = min count bytes.size := by
  rw [lastBytes, ByteArray.size_extract]
  omega

theorem lastBytes_empty (count : Nat) : lastBytes count .empty = .empty := by
  apply ext_at?
  intro i
  rw [at?_lastBytes]
  simp [at?]

/-- What lies further back may be cut off before an append or after it. -/
theorem lastBytes_lastBytes_append (count : Nat) (a b : ByteArray) :
    lastBytes count (lastBytes count a ++ b) = lastBytes count (a ++ b) := by
  apply ext_at?
  intro i
  simp only [at?_lastBytes, at?_append, ByteArray.size_append, size_lastBytes]
  by_cases h : a.size + b.size - count + i < a.size
  · rw [if_pos (by omega), if_pos h]
    exact congrArg (at? a) (by omega)
  · rw [if_neg (by omega), if_neg h]
    exact congrArg (at? b) (by omega)

end Walk

/-! ## Chunks and what they receive -/

/-- Where chunk `k` of a region starts. -/
def chunkAddress (config : Config) (r : Region) (k : Nat) : UInt64 :=
  r.base + UInt64.ofNat (k * config.step)

/-- Number of bytes asked for in chunk `k`. -/
def chunkLen (config : Config) (r : Region) (k : Nat) : Nat :=
  min config.step (r.len - k * config.step)

/-- The answer to the read of chunk `k`. -/
def chunkRead (m : Source) (config : Config) (r : Region) (k : Nat) :
    Except ReadFault ByteArray :=
  m.read (chunkAddress config r k) (chunkLen config r k)

/-- What was received in front of chunk `k` since the last chunk that could not be read. -/
def received (m : Source) (config : Config) (r : Region) : Nat → ByteArray
  | 0 => .empty
  | k + 1 =>
    match chunkRead m config r k with
    | .error _ => .empty
    | .ok bytes => received m config r k ++ bytes

/-- Bytes read at an address with a tail carried in front of them. -/
def Window.behind (tail : ByteArray) (address : UInt64) (bytes : ByteArray) : Window :=
  ⟨address - UInt64.ofNat tail.size, tail.size, tail ++ bytes⟩

/-- The matches that end in chunk `k`. -/
def chunkMatches (m : Source) (config : Config) (r : Region) (s : Signature) (k : Nat) :
    List Match :=
  match chunkRead m config r k with
  | .error _ => []
  | .ok bytes => found s r (.behind (received m config r k) (chunkAddress config r k) bytes)

section

variable (m : Source) (config : Config) (overlap : Nat) (r : Region)

theorem walk_succ (n : Nat) :
    walk m config overlap r (n + 1) =
      (walk m config overlap r n).advance overlap (chunkAddress config r n)
        (chunkRead m config r n) := by
  rw [walk, Nat.fold_succ]
  rfl

/-- A walk carries the last bytes of what was received. -/
theorem tail_walk (n : Nat) :
    (walk m config overlap r n).tail = Walk.lastBytes overlap (received m config r n) := by
  induction n with
  | zero => exact (Walk.lastBytes_empty overlap).symm
  | succ n ih =>
    rw [walk_succ, received]
    cases chunkRead m config r n with
    | error fault => exact (Walk.lastBytes_empty overlap).symm
    | ok bytes => simp only [Walk.advance, ih, Walk.lastBytes_lastBytes_append]

end

/-! ## A longer tail adds no match -/

/-- With a tail long enough for the signature a window has the starts that it has with all
of the tail: none that ends in the new part lies in front of the tail. -/
theorem starts_behind {s : Signature} {overlap : Nat} (h : s.rawLen ≤ overlap + 1)
    (tail : ByteArray) (address : UInt64) (bytes : ByteArray) :
    starts s (.behind tail address bytes) =
      (starts s (.behind (Walk.lastBytes overlap tail) address bytes)).map
        (tail.size - overlap + ·) := by
  have hmin : (Walk.lastBytes overlap tail).size = min overlap tail.size :=
    Walk.size_lastBytes overlap tail
  have hat : ∀ i, at? (tail ++ bytes) (tail.size - overlap + i) =
      at? (Walk.lastBytes overlap tail ++ bytes) i := by
    intro i
    simp only [at?_append, Walk.at?_lastBytes]
    by_cases hi : i < (Walk.lastBytes overlap tail).size
    · rw [if_pos (by omega), if_pos hi]
    · rw [if_neg (by omega), if_neg hi]
      exact congrArg (at? bytes) (by omega)
  have hlow : tail.size + 1 - s.rawLen =
      tail.size - overlap + ((Walk.lastBytes overlap tail).size + 1 - s.rawLen) := by
    omega
  have hcount : (tail ++ bytes).size + 1 - s.rawLen - (tail.size + 1 - s.rawLen) =
      (Walk.lastBytes overlap tail ++ bytes).size + 1 - s.rawLen -
        ((Walk.lastBytes overlap tail).size + 1 - s.rawLen) := by
    simp only [ByteArray.size_append]
    omega
  simp only [starts, placesFrom_eq_filter, Window.behind]
  rw [hcount, hlow, ← List.map_add_range', List.filter_map]
  refine congrArg (List.map _) (List.filter_congr ?_)
  intro p _
  exact Signature.matchesAt_shift hat s p

theorem found_behind {s : Signature} {overlap : Nat} (h : s.rawLen ≤ overlap + 1) (r : Region)
    (tail : ByteArray) (address : UInt64) (bytes : ByteArray) :
    found s r (.behind (Walk.lastBytes overlap tail) address bytes) =
      found s r (.behind tail address bytes) := by
  have hmin : (Walk.lastBytes overlap tail).size = min overlap tail.size :=
    Walk.size_lastBytes overlap tail
  have hsize : UInt64.ofNat tail.size =
      UInt64.ofNat (Walk.lastBytes overlap tail).size + UInt64.ofNat (tail.size - overlap) := by
    rw [← UInt64.ofNat_add]
    exact congrArg UInt64.ofNat (by omega)
  rw [found, found, starts_behind h tail, List.map_map]
  apply List.map_congr_left
  intro p _
  simp only [Function.comp_apply, Window.behind, UInt64.ofNat_add, hsize, Match.mk.injEq, and_true]
  grind

theorem flatMap_found_walk (m : Source) (config : Config) {overlap : Nat} (r : Region)
    {s : Signature} (h : s.rawLen ≤ overlap + 1) (n : Nat) :
    (walk m config overlap r n).windows.reverse.flatMap (found s r) =
      (List.range n).flatMap (chunkMatches m config r s) := by
  induction n with
  | zero => rfl
  | succ n ih =>
    rw [walk_succ, List.range_succ, List.flatMap_append, ← ih, List.flatMap_singleton,
      chunkMatches]
    cases chunkRead m config r n with
    | error fault => simp [Walk.advance]
    | ok bytes =>
      have hf := found_behind h r (received m config r n) (chunkAddress config r n) bytes
      rw [← tail_walk m config overlap r n] at hf
      simp only [Walk.advance, List.reverse_cons, List.flatMap_append, List.flatMap_singleton]
      rw [← hf, Window.behind]

/-- The matches of a region, chunk by chunk. -/
theorem flatMap_found_windows (m : Source) (config : Config) {overlap : Nat} (r : Region)
    {s : Signature} (h : s.rawLen ≤ overlap + 1) :
    (windows m config overlap r).flatMap (found s r) =
      (List.range (chunkCount config r)).flatMap (chunkMatches m config r s) :=
  flatMap_found_walk m config r h _

end Scan

end SigScan
