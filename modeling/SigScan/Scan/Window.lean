/-
SigScan.Scan.Window — the stretches of memory in which matches are looked for.

A region is read chunk by chunk. The last bytes of what was read are carried into the
next window, so that a match across a boundary is seen; after a chunk that cannot be
read nothing is carried. Reading goes on by the number of bytes asked for, whatever
number came back. A match belongs to the window in which its last byte is new.

Main statements: a place is a start of a match in a window exactly if the tokens fit,
end in the new part and match there (`mem_starts`).
-/
import SigScan.Signature
import SigScan.Memory.Source
import SigScan.Scan.Tally
import SigScan.Scan.Config

namespace SigScan.Scan

/-- Bytes read in one piece, behind those carried over from the window before. -/
structure Window where
  /-- Address of the first byte. -/
  origin : UInt64
  /-- Number of bytes at the start that the window before held too. -/
  seen : Nat
  bytes : ByteArray

/-- A region read up to some chunk: the bytes to carry on, and the windows so far, the
latest first. -/
structure Walk where
  tail : ByteArray
  windows : List Window

namespace Walk

/-- Nothing read yet. -/
def start : Walk := ⟨.empty, []⟩

/-- The last `count` bytes, or all if there are fewer. -/
def lastBytes (count : Nat) (bytes : ByteArray) : ByteArray :=
  bytes.extract (bytes.size - count) bytes.size

/-- The walk after a read at `address` was answered. -/
def advance (overlap : Nat) (address : UInt64) (walk : Walk) :
    Except ReadFault ByteArray → Walk
  | .error _ => { walk with tail := .empty }
  | .ok bytes =>
    let data := walk.tail ++ bytes
    { tail := lastBytes overlap data
      windows := ⟨address - UInt64.ofNat walk.tail.size, walk.tail.size, data⟩ :: walk.windows }

end Walk

/-- Number of chunks of a region. -/
def chunkCount (config : Config) (r : Region) : Nat :=
  (r.len + (config.step - 1)) / config.step

/-- The region walked through its first `n` chunks; the last chunk ends with the region. Behind
the top of the address space the walk would go on from address zero: a scan is stopped there
(`Scan.run`), so nothing that it reports has been read beyond. -/
def walk (m : Source) (config : Config) (overlap : Nat) (r : Region) (n : Nat) : Walk :=
  n.fold (fun k _ walk =>
    let offset := k * config.step
    let address := r.base + UInt64.ofNat offset
    walk.advance overlap address (m.read address (min config.step (r.len - offset)))) .start

/-- The windows of a region in the order of reading. -/
def windows (m : Source) (config : Config) (overlap : Nat) (r : Region) : List Window :=
  (walk m config overlap r (chunkCount config r)).windows.reverse

/-! ## Matches in a window -/

/-- Of `count` places from `low` on, those that pass a test, in increasing order. -/
@[inline] def placesFrom (low count : Nat) (test : Nat → Bool) : List Nat :=
  count.foldRev (fun i _ places => if test (low + i) then (low + i) :: places else places) []

/-- The places of a window where a signature matches with its last token in the new
part. -/
def starts (s : Signature) (w : Window) : List Nat :=
  let low := w.seen + 1 - s.rawLen
  placesFrom low (w.bytes.size + 1 - s.rawLen - low) (s.matchesAt w.bytes)

/-- The matches of a signature in a window of a region. -/
def found (s : Signature) (r : Region) (w : Window) : List Match :=
  (starts s w).map fun p => ⟨w.origin + UInt64.ofNat p, r⟩

theorem foldRev_places (low count : Nat) (test : Nat → Bool) (places : List Nat) :
    count.foldRev (fun i _ places => if test (low + i) then (low + i) :: places else places)
        places =
      (List.range' low count).filter test ++ places := by
  induction count generalizing places with
  | zero => rfl
  | succ n ih =>
    rw [Nat.foldRev_succ, ih, List.range'_concat, List.filter_append, List.append_assoc]
    congr 1
    by_cases h : test (low + n) = true <;> simp [h]

/-- The places are those of the range that pass the test. -/
theorem placesFrom_eq_filter (low count : Nat) (test : Nat → Bool) :
    placesFrom low count test = (List.range' low count).filter test := by
  rw [placesFrom, foldRev_places, List.append_nil]

theorem mem_starts {s : Signature} {w : Window} {p : Nat} :
    p ∈ starts s w ↔
      w.seen < p + s.rawLen ∧ p + s.rawLen ≤ w.bytes.size ∧ s.matchesAt w.bytes p = true := by
  simp only [starts, placesFrom_eq_filter, List.mem_filter, List.mem_range'_1]
  constructor
  · rintro ⟨⟨h1, h2⟩, h3⟩
    exact ⟨by omega, by omega, h3⟩
  · rintro ⟨h1, h2, h3⟩
    exact ⟨⟨by omega, by omega⟩, h3⟩

end SigScan.Scan
