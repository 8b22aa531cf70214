/-
SigScan.SignatureSet — named signatures as an author writes them.

A definition names a pattern, gives an offset if the idiom is not to be detected, and
says whether the resolved place holds a pointer. A set collects the definitions for one
version of a target.
-/
import SigScan.Signature

namespace SigScan

/-- One named signature. -/
structure Definition where
  name : String
  pattern : String
  /-- Offset of resolution; detected from the opcode when absent. -/
  offset : Option UInt32 := none
  /-- The resolved place holds a pointer to the object. -/
  deref : Bool := false
deriving DecidableEq, Repr

/-- The compiled pattern of a definition. -/
def Definition.compile (d : Definition) : Except Pattern.Malformed Signature :=
  Signature.compile d.pattern d.offset

/-- The definitions for one version of a target. -/
structure SignatureSet where
  version : String
  signatures : List Definition
deriving DecidableEq, Repr

/-- The first definition of a name. -/
def SignatureSet.definition? (set : SignatureSet) (name : String) : Option Definition :=
  set.signatures.find? fun d => d.name == name

end SigScan
