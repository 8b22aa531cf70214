/-
SigScan.Error — what can go wrong, and its messages.

Each constructor is a cause; the words are in `message` alone. A signature that could
not be resolved carries its name and its pattern, so that the failure can be kept and
handed out again.
-/
import SigScan.Signature
import SigScan.Memory.Source
import SigScan.FileFault
import SigScan.Json.Fault

namespace SigScan

/-- Why a signature has no address. -/
inductive FailureKind where
  /-- The pattern occurs in no scanned region. -/
  | noMatch
  /-- The pattern occurs more than once. -/
  | ambiguous (count : Nat)
  /-- The displacement at an address reaches past the end of the region of the match. -/
  | outOfBounds (address : UInt64)
  /-- The displacement at an address could not be read. -/
  | unreadable (address : UInt64)
deriving DecidableEq, Repr

/-- The kind of failure as messages give it. -/
def FailureKind.message : FailureKind → String
  | noMatch => "no match in scanned regions"
  | ambiguous count => s!"ambiguous, matched {count} locations"
  | outOfBounds address =>
    "displacement at " ++ Text.Hex.address address ++ " runs past the region end"
  | unreadable address => "displacement at " ++ Text.Hex.address address ++ " is unreadable"

/-- A signature without an address, named together with its pattern. -/
structure ResolveFailure where
  name : String
  pattern : String
  kind : FailureKind
deriving DecidableEq, Repr

/-- The failure as messages give it. -/
def ResolveFailure.message (f : ResolveFailure) : String :=
  s!"Signature '{f.name}' ({f.pattern}) could not be resolved: {f.kind.message}"

/-- What can go wrong. -/
inductive Error where
  | malformed (pattern : Pattern.Malformed)
  | duplicate (name : String)
  | unknown (name : String)
  | notAPointer (name : String)
  | unresolved (failure : ResolveFailure)
  | readFailed (fault : ReadFault)
  | processNotFound (text : String)
  | processOpenFailed (text : String)
  | file (fault : FileFault)
  | json (fault : Json.Fault)
deriving DecidableEq, Repr

namespace Error

/-- The words of an error. What is wrong with a JSON text is not put into words. -/
def message : Error → String
  | malformed pattern => pattern.message
  | duplicate name => s!"Signature '{name}' is already registered with a different pattern"
  | unknown name => s!"Signature '{name}' is not registered"
  | notAPointer name => s!"Signature '{name}' does not locate a pointer"
  | unresolved failure => failure.message
  | readFailed fault =>
    "Failed to read process memory at address " ++ Text.Hex.address fault.address ++ ": "
      ++ fault.cause.text
  | processNotFound text => s!"Process not found: {text}"
  | processOpenFailed text => s!"Failed to open process: {text}"
  | file fault => s!"IO error: {fault.message}"
  | json _ => "JSON error"

/-- The messages of an error and of what caused it, outermost first. -/
def chain : Error → List String
  | file fault => [(file fault).message, fault.message]
  | e => [e.message]

/-- Whether a file that is not there is at fault. -/
def isNotFound : Error → Bool
  | file .notFound => true
  | _ => false

end Error

end SigScan
