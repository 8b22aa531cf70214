/-
SigScan.Toml.Reader — reading TOML from left to right.

A reader takes the characters that are left of a text and returns a value and what is
left behind it, or nothing: what exactly is wrong with a text is not told. Blanks are
spaces and tabs, a line ends in a line feed, with a carriage return in front of it or
not, and a comment runs from `#` to the end of its line. Control characters but the tab
may stand nowhere.

A loop that reads parts of no fixed length is bounded by a list of characters, of which
each step drops one. The text in front of the loop is long enough for that, since each
step takes a character or more of it, and nothing has to be counted.
-/
import SigScan.Text.Decimal
import SigScan.Text.Hex

namespace SigScan.Toml

/-- Reads a value off the front of what is left of a text. -/
abbrev Reader (α : Type) := List Char → Option (α × List Char)

/-- The characters that stand between the parts of a line. -/
def isBlank (c : Char) : Bool :=
  c == ' ' || c == '\t'

/-- Characters that may stand in a line: no control characters but the tab. -/
def isPlain (c : Char) : Bool :=
  c == '\t' || (decide (32 ≤ c.toNat) && c.toNat != 127)

/-- What is left behind blanks. -/
def skipBlanks (cs : List Char) : List Char :=
  cs.dropWhile isBlank

/-- What is left behind the end of a line. -/
def lineEnd : List Char → Option (List Char)
  | '\n' :: rest => some rest
  | '\r' :: '\n' :: rest => some rest
  | _ => none

/-- What is left behind a given character. -/
def skipChar (c : Char) : List Char → Option (List Char)
  | [] => none
  | d :: rest => if d = c then some rest else none

/-- What is left behind a given word. -/
def skipWord : List Char → List Char → Option (List Char)
  | [], cs => some cs
  | w :: ws, cs =>
    match skipChar w cs with
    | none => none
    | some rest => skipWord ws rest

/-- What is left behind a comment, if there is one: the end of its line. -/
def skipComment : List Char → List Char
  | '#' :: rest => rest.dropWhile isPlain
  | cs => cs

/-- What is left behind the end of a line or at the end of the text. -/
def lineEndOrEnd : List Char → Option (List Char)
  | [] => some []
  | cs => lineEnd cs

/-- What is left behind a line that holds nothing more but blanks and a comment. -/
def finishLine (cs : List Char) : Option (List Char) :=
  lineEndOrEnd (skipComment (skipBlanks cs))

/-- What is left behind blanks, line ends and comments. Each step takes a character or
more, so `bound` need not be longer than the text that is left. -/
def skipLinesWithin : List Char → List Char → List Char
  | [], cs => cs
  | _ :: bound, cs =>
    let rest := skipComment (skipBlanks cs)
    match lineEnd rest with
    | some rest => skipLinesWithin bound rest
    | none => rest

/-- What is left behind blanks, line ends and comments. -/
def skipLines (cs : List Char) : List Char :=
  skipLinesWithin cs cs

end SigScan.Toml
