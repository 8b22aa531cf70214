/-
SigScan.Json.Fault — why a JSON text is refused.

A text is read from left to right straight into the value that is expected, and the
first thing that goes wrong decides.
-/

namespace SigScan.Json

/-- The kinds of trouble with a JSON text. -/
inductive Fault where
  /-- The text is not JSON. -/
  | malformed
  /-- The text ends before the value does. -/
  | truncated
  /-- The text is JSON of another shape: a wrong type, a missing or repeated field, a
  number out of range. -/
  | mismatch
deriving DecidableEq, Repr

end SigScan.Json
