/-
SigScan.Json.Layout — arrays and objects spread over lines.

Each element and each member has a line of its own, two spaces further in than the
bracket that holds it; an array or an object without any is written in two characters.
The values inside are handed over in written form, laid out for their own depth.

Main statement: a reader passes over what stands between the parts (`next_lineStart`).
-/
import SigScan.Json.Scalar

namespace SigScan.Json

/-- Two spaces for each level of depth. -/
def indent (depth : Nat) : List Char :=
  List.replicate (2 * depth) ' '

/-- A new line and its indentation. -/
def lineStart (depth : Nat) : List Char :=
  '\n' :: indent depth

/-- The lines of a block behind its first part. -/
def furtherParts (depth : Nat) : List (List Char) → List Char
  | [] => []
  | part :: parts => ',' :: (lineStart (depth + 1) ++ part) ++ furtherParts depth parts

/-- Parts between brackets, each on a line of its own. -/
def block (opening closing : Char) (depth : Nat) : List (List Char) → List Char
  | [] => [opening, closing]
  | part :: parts =>
    opening :: (lineStart (depth + 1) ++ part) ++ furtherParts depth parts
      ++ lineStart depth ++ [closing]

/-- An array whose elements are given in written form. -/
def arrayText (depth : Nat) (elements : List (List Char)) : List Char :=
  block '[' ']' depth elements

/-- A member: its name, a colon, and its value in written form. -/
def memberText (name : String) (value : List Char) : List Char :=
  quote name ++ ':' :: ' ' :: value

/-- An object whose members are given by name and written value. -/
def objectText (depth : Nat) (members : List (String × List Char)) : List Char :=
  block '\x7b' '\x7d' depth (members.map fun (name, value) => memberText name value)

theorem isSpace_of_mem_lineStart {depth : Nat} {c : Char} (h : c ∈ lineStart depth) :
    isSpace c = true := by
  rcases List.mem_cons.1 h with rfl | h
  · decide
  · rw [indent, List.mem_replicate] at h
    rw [h.2]
    decide

/-- A reader passes over the start of a line. -/
theorem next_lineStart (depth : Nat) (cs : List Char) : next (lineStart depth ++ cs) = next cs :=
  next_space (fun _ h => isSpace_of_mem_lineStart h) cs

end SigScan.Json
