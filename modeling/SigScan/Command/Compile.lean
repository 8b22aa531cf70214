/-
SigScan.Command.Compile — the compile command.

It compiles a pattern and describes the result: the pattern with its filling, its
lengths, how a match is resolved, and the packed words one by one.
-/
import SigScan.Command.Outcome

namespace SigScan.Command.Compile

open SigScan.Text

/-- The line of a packed word. -/
def wordLine (index : Nat) (w : MaskedWord) : String :=
  s!"[{index}] data 0x{Hex.word w.data}  mask 0x{Hex.word w.mask}"

/-- The lines of packed words, numbered from `index` on. -/
def wordLines : Nat → List MaskedWord → List String
  | _, [] => []
  | index, w :: ws => wordLine index w :: wordLines (index + 1) ws

/-- The lines that describe a signature. -/
def describe (s : Signature) : List String :=
  [s!"Pattern:  {s.paddedPattern}",
    s!"Length:   {s.rawLen} bytes ({s.paddedLen} padded)",
    s!"Offset:   {s.offset.toNat}",
    s!"Mode:     {s.mode.name}",
    s!"Idiom:    {s.idiom.name}",
    ""] ++ wordLines 0 s.words

/-- Compiles a pattern and describes it, under a name if there is one. -/
def run (pattern : String) (offset : Option UInt32) (name : Option String) : Outcome :=
  match Signature.compile pattern offset with
  | .error cause => .failed (.compile (name.getD pattern) cause)
  | .ok s => { lines := (name.map fun n => s!"Name:     {n}").toList ++ describe s }

end SigScan.Command.Compile
