/-
SigScan.Json.Skip — values that nobody asked for.

The value of an unknown member is passed over: it must be JSON, but a code that stands
for half a character is let pass, and so is any depth of brackets. The open brackets are
kept in a list, so that one loop serves all depths. A number must be complete; one that
the end of the text cuts off is malformed.
-/
import SigScan.Json.Scalar

namespace SigScan.Json

/-- An open bracket of a value that is passed over. -/
inductive Bracket where
  | array
  | object
deriving DecidableEq, Repr

/-- The character that closes a bracket. -/
def Bracket.close : Bracket → Char
  | array => ']'
  | object => '\x7d'

/-- A string behind its opening quote. -/
def skipString : Reader Unit := fun cs =>
  match contents true cs [] cs with
  | .error fault => .error fault
  | .ok (_, rest) => .ok ((), rest)

/-- A number. -/
def skipNumber : Reader Unit := fun cs =>
  match numeral cs with
  | .error _ => .error .malformed
  | .ok (_, rest) => .ok ((), rest)

/-- The name of a member and its colon. -/
def skipName : Reader Unit := fun cs =>
  match next cs with
  | .error fault => .error fault
  | .ok (c, rest) =>
    if c = '"' then
      match skipString rest with
      | .error fault => .error fault
      | .ok (_, rest) =>
        match next rest with
        | .error fault => .error fault
        | .ok (c, rest) => if c = ':' then .ok ((), rest) else .error .malformed
    else .error .malformed

/-- What stands in front of a value: nothing in an array, a name in an object. -/
def Bracket.enter : Bracket → Reader Unit
  | array, cs => .ok ((), cs)
  | object, cs => skipName cs

/-- What stands behind an opening bracket: the one that closes it, or else the part in front
of the first value inside. Then the bracket is open. -/
def skipOpening (b : Bracket) : Reader (Option Bracket) := fun cs =>
  match next cs with
  | .error fault => .error fault
  | .ok (c, rest) =>
    if c = b.close then .ok (none, rest)
    else
      match b.enter (c :: rest) with
      | .error fault => .error fault
      | .ok (_, rest) => .ok (some b, rest)

/-- A whole value, or its beginning up to the first value inside and the bracket that is open
then. -/
def skipPart : Reader (Option Bracket) := fun cs =>
  match next cs with
  | .error fault => .error fault
  | .ok (c, rest) =>
    let plain (result : Except Fault (Unit × List Char)) :=
      match result with
      | .error fault => .error fault
      | .ok (_, rest) => .ok (none, rest)
    match c with
    | 'n' => plain (spell ['u', 'l', 'l'] rest)
    | 't' => plain (spell ['r', 'u', 'e'] rest)
    | 'f' => plain (spell ['a', 'l', 's', 'e'] rest)
    | '"' => plain (skipString rest)
    | '[' => skipOpening .array rest
    | '\x7b' => skipOpening .object rest
    | c => if startsNumber c then plain (skipNumber (c :: rest)) else .error .malformed

/-- Where the loop stands in its innermost bracket. -/
inductive Place where
  /-- In front of a value. -/
  | value
  /-- Behind a value. -/
  | done
deriving DecidableEq, Repr

/-- Reads on until all brackets are closed, the innermost first. Each step takes a character
or more, so `bound` need not be longer than the text that is left. -/
def skipLoop : List Char → Place → List Bracket → Reader Unit
  | _, .done, [], cs => .ok ((), cs)
  | [], _, _, _ => .error .truncated
  | _ :: bound, .value, outer, cs =>
    match skipPart cs with
    | .error fault => .error fault
    | .ok (none, rest) => skipLoop bound .done outer rest
    | .ok (some b, rest) => skipLoop bound .value (b :: outer) rest
  | _ :: bound, .done, b :: outer, cs =>
    match next cs with
    | .error fault => .error fault
    | .ok (c, rest) =>
      if c = ',' then
        match b.enter rest with
        | .error fault => .error fault
        | .ok (_, rest) => skipLoop bound .value (b :: outer) rest
      else if c = b.close then skipLoop bound .done outer rest
      else .error .malformed

/-- Passes over one value. -/
def skip : Reader Unit := fun cs =>
  skipLoop cs .value [] cs

end SigScan.Json
