/-
SigScan.Scan.Run — a scan that is stopped where an address is out of range.

A scan works with numbers of 64 bits: how many bytes the scanned regions have together, where
each chunk starts, where the bytes carried into it start, and where each match starts. One
that is out of range stops the scan, and nothing is reported. `scan` takes such addresses
around the top of the address space instead; the two agree on every scan that is not stopped.
-/
import SigScan.NameTable
import SigScan.Scan.Pass

namespace SigScan.Scan

/-- A number that a scan works with and that 64 bits do not hold. -/
inductive Overrun where
  /-- The bytes of all scanned regions together. -/
  | total
  /-- The start of a chunk, past the top of the address space. -/
  | chunk (region : Region) (offset : Nat)
  /-- The start of the bytes carried into a chunk, below address zero. -/
  | carried (address : UInt64) (count : Nat)
  /-- The start of a match, past the top of the address space. -/
  | start (origin : UInt64) (place : Nat)
deriving DecidableEq, Repr

/-- What is said about a number that does not fit. -/
def Overrun.message : Overrun → String
  | carried _ _ => "attempt to subtract with overflow"
  | _ => "attempt to add with overflow"

namespace Walk

/-- The walk after chunk `k`, which must start at an address, as must the bytes carried into
it. -/
def step (m : Source) (config : Config) (overlap : Nat) (r : Region) (k : Nat) (walk : Walk) :
    Except Overrun Walk :=
  let offset := k * config.step
  if UInt64.size ≤ r.base.toNat + offset then .error (.chunk r offset)
  else
    let address := r.base + UInt64.ofNat offset
    match m.read address (min config.step (r.len - offset)) with
    | .error fault => .ok (walk.advance overlap address (.error fault))
    | .ok bytes =>
      if address.toNat < walk.tail.size then .error (.carried address walk.tail.size)
      else .ok (walk.advance overlap address (.ok bytes))

/-- The walk after `count` chunks from chunk `k` on, up to the first that is out of range. -/
def through (m : Source) (config : Config) (overlap : Nat) (r : Region) :
    (count k : Nat) → Walk → Except Overrun Walk
  | 0, _, walk => .ok walk
  | count + 1, k, walk =>
    match walk.step m config overlap r k with
    | .error overrun => .error overrun
    | .ok walk' => through m config overlap r count (k + 1) walk'

end Walk

/-- The first match in a window that does not start at an address. Only a window that reaches
the top of the address space is looked through. -/
def IndexedWindow.overrun? (signatures : List Signature) (w : IndexedWindow) : Option Overrun :=
  let origin := w.window.origin
  if origin.toNat + w.window.bytes.size < UInt64.size then none
  else
    signatures.findSome? fun s =>
      ((starts s w).find? fun p => decide (UInt64.size ≤ origin.toNat + p)).map (.start origin)

namespace Pass

/-- Reads regions one after another, up to the first walk that is stopped. -/
def readParts (m : Source) (config : Config) (overlap : Nat) (wanted : Array Bool) :
    List Region → Except Overrun (List (Region × List IndexedWindow))
  | [] => .ok []
  | r :: rest =>
    match Walk.through m config overlap r (chunkCount config r) 0 .start with
    | .error overrun => .error overrun
    | .ok walk =>
      match readParts m config overlap wanted rest with
      | .error overrun => .error overrun
      | .ok parts => .ok ((r, walk.windows.reverse.map (.ofWindow wanted)) :: parts)

/-- The first match of a pass that does not start at an address. -/
def overrun? (p : Pass) (signatures : List Signature) : Option Overrun :=
  p.parts.findSome? fun part => part.2.findSome? (IndexedWindow.overrun? signatures)

end Pass

/-- The bytes of regions together. -/
def totalLen (regions : List Region) : Nat :=
  regions.foldl (fun n r => n + r.len) 0

/-- Looks for many signatures in one pass, unless it is stopped; the results are in their
order. -/
def run (m : Source) (config : Config) (regions : List Region) (signatures : List Signature) :
    Except Overrun (List Result) :=
  let scanned := regions.filter config.admits
  if signatures.isEmpty then .ok []
  else if UInt64.size ≤ totalLen scanned then .error .total
  else
    match Pass.readParts m config (Pass.overlap signatures) (Pass.anchors signatures) scanned with
    | .error overrun => .error overrun
    | .ok parts =>
      match Pass.overrun? ⟨parts⟩ signatures with
      | some overrun => .error overrun
      | none => .ok (signatures.map (Pass.result ⟨parts⟩))

/-- The results of a pass by the names of the signatures; of signatures with one name the last
one counts. -/
def runNamed (m : Source) (config : Config) (regions : List Region)
    (named : List (String × Signature)) : Except Overrun (NameTable Result) :=
  (run m config regions (named.map Prod.snd)).map fun results =>
    .ofPairs ((named.map Prod.fst).zip results)

/-- Looks for a single signature, unless the pass is stopped. -/
def runOne (m : Source) (config : Config) (regions : List Region) (s : Signature) :
    Except Overrun Result :=
  (run m config regions [s]).map fun results => results.getLast?.getD .noMatch

end SigScan.Scan
