/-
SigScan.Toml.Value — values, arrays and inline tables.

An array may run over several lines and end in a comma. An inline table stands on one
line, its last value without a comma; the rules for its keys are those of a table at the
top level. Arrays and inline tables may be nested, but not without limit.
-/
import SigScan.Toml.Key
import SigScan.Toml.Moment
import SigScan.Toml.Number
import SigScan.Toml.Table

namespace SigScan.Toml

/-- A value of another kind that ends where `rest` begins. -/
def otherBefore (rest : Option (List Char)) : Option (Value × List Char) :=
  rest.map fun rest => (.other, rest)

/-- A date, a time or a number. -/
def numeric : Reader Value := fun cs =>
  match (skipMoment cs).or (skipFloat cs) with
  | some rest => some (.other, rest)
  | none => (integer cs).map fun (n, rest) => (.integer n, rest)

/-- A value that is no array and no inline table. -/
def scalar : Reader Value
  | [] => none
  | c :: rest =>
    match c with
    | '"' => otherBefore (skipString (c :: rest))
    | '\'' => otherBefore (skipString (c :: rest))
    | 't' => (skipWord ['r', 'u', 'e'] rest).map fun rest => (.boolean true, rest)
    | 'f' => (skipWord ['a', 'l', 's', 'e'] rest).map fun rest => (.boolean false, rest)
    | 'i' => otherBefore (skipWord ['n', 'f'] rest)
    | 'n' => otherBefore (skipWord ['a', 'n'] rest)
    | c => numeric (c :: rest)

/-- What is left behind the elements of an array and its bracket. Each element takes a
character or more, so `bound` need not be longer than the text that is left. -/
def arrayRest (element : Reader Value) : List Char → List Char → Option (List Char)
  | [], _ => none
  | _ :: bound, cs =>
    match skipLines cs with
    | ']' :: rest => some rest
    | cs =>
      match element cs with
      | none => none
      | some (_, rest) =>
        match skipLines rest with
        | ',' :: rest => arrayRest element bound rest
        | ']' :: rest => some rest
        | _ => none

/-- What is left behind the keys of an inline table and its brace, of which there is one at
least. -/
def inlineRest (element : Reader Value) :
    List Char → Entries → List Char → Option (List Char)
  | [], _, _ => none
  | _ :: bound, known, cs =>
    match path cs with
    | some (key, '=' :: rest) =>
      match element (skipBlanks rest) with
      | none => none
      | some (v, rest) =>
        match known.define key v with
        | none => none
        | some known =>
          match skipBlanks rest with
          | ',' :: rest => inlineRest element bound known rest
          | '\x7d' :: rest => some rest
          | _ => none
    | _ => none

/-- What is left behind an inline table, behind its opening brace. -/
def tableRest (element : Reader Value) (cs : List Char) : Option (List Char) :=
  match skipBlanks cs with
  | '\x7d' :: rest => some rest
  | _ => inlineRest element cs [] cs

/-- A value with at most `levels` arrays and inline tables inside each other. -/
def valueWithin : Nat → Reader Value
  | _, [] => none
  | levels, c :: rest =>
    if c = '[' ∨ c = '\x7b' then
      match levels with
      | 0 => none
      | levels + 1 =>
        let element := valueWithin levels
        otherBefore (if c = '[' then arrayRest element rest rest else tableRest element rest)
    else scalar (c :: rest)

/-- A value. -/
def value : Reader Value :=
  valueWithin (nestingLimit - 1)

end SigScan.Toml
