/-
SigScan.Scan.Pass — one pass over the regions of a module for many signatures.

A pass reads every admitted region once. Each signature is then looked for in the same
windows, whose overlap is long enough for the longest of them, and its matches in all
regions are tallied together. For a group of signatures the windows are indexed by their
first literal bytes.

Main statements: a signature is tallied as if no window had an index (`tally_read`), a pass
gives one result for each signature, in their order (`length_scan`), and a signature alone
gets the result of its own pass (`scanOne_eq`).
-/
import SigScan.Scan.Indexed
import SigScan.Scan.Tally

namespace SigScan.Scan

/-- The admitted regions with their windows. -/
structure Pass where
  parts : List (Region × List IndexedWindow)

namespace Pass

/-- Bytes that windows share so that none of the signatures is cut in two: one less than
the longest has tokens. -/
def overlap (signatures : List Signature) : Nat :=
  (signatures.map Signature.rawLen).foldl max 0 - 1

/-- The byte values that windows are indexed by: the first literal bytes of a group. For a
signature alone an index would not pay. -/
def anchors : List Signature → Array Bool
  | [] => #[]
  | [_] => #[]
  | signatures => Bytes.Index.wanted (signatures.map Signature.anchorByte)

/-- Reads the admitted regions for a group of signatures. How many bytes they have together is
counted by `Scan.run`, which is stopped if there are too many to count. -/
def read (m : Source) (config : Config) (regions : List Region) (signatures : List Signature) :
    Pass :=
  let wanted := anchors signatures
  ⟨(regions.filter config.admits).map fun r =>
    (r, (windows m config (overlap signatures) r).map (IndexedWindow.ofWindow wanted))⟩

/-- The matches of a signature in one region. -/
def tallyIn (s : Signature) (r : Region) (ws : List IndexedWindow) : Tally :=
  ws.foldl (fun t w => (IndexedWindow.found s r w).foldl Tally.record t) .empty

/-- The matches of a signature in all regions. -/
def tally (p : Pass) (s : Signature) : Tally :=
  (p.parts.map fun (r, ws) => tallyIn s r ws).foldl Tally.merge .empty

/-- What the pass says about a signature. -/
def result (p : Pass) (s : Signature) : Result :=
  (p.tally s).result

theorem tallyIn_ofWindow (s : Signature) (r : Region) (wanted : Array Bool) (ws : List Window) :
    tallyIn s r (ws.map (IndexedWindow.ofWindow wanted)) =
      Tally.ofMatches (ws.flatMap (found s r)) := by
  rw [tallyIn, List.foldl_map, Tally.ofMatches, List.foldl_flatMap]
  simp only [IndexedWindow.found_eq]
  rfl

/-- A signature is tallied as if no window had an index. -/
theorem tally_read (m : Source) (config : Config) (regions : List Region)
    (signatures : List Signature) (s : Signature) :
    (read m config regions signatures).tally s =
      ((regions.filter config.admits).map fun r =>
        Tally.ofMatches ((windows m config (overlap signatures) r).flatMap (found s r))).foldl
          Tally.merge .empty := by
  simp only [tally, read, List.map_map, Function.comp_def, tallyIn_ofWindow]

end Pass

/-- Looks for many signatures in one pass; the results are in their order. They are those of
`Scan.run` wherever it is not stopped. -/
def scan (m : Source) (config : Config) (regions : List Region) (signatures : List Signature) :
    List Result :=
  let pass := Pass.read m config regions signatures
  signatures.map pass.result

/-- Looks for a single signature. -/
def scanOne (m : Source) (config : Config) (regions : List Region) (s : Signature) : Result :=
  (Pass.read m config regions [s]).result s

theorem length_scan (m : Source) (config : Config) (regions : List Region)
    (signatures : List Signature) :
    (scan m config regions signatures).length = signatures.length := by
  simp [scan]

/-- A signature alone is a group of one. -/
theorem scanOne_eq (m : Source) (config : Config) (regions : List Region) (s : Signature) :
    scan m config regions [s] = [scanOne m config regions s] := rfl

end SigScan.Scan
