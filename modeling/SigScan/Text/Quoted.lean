/-
SigScan.Text.Quoted — text quoted in messages.

A message quotes what it was given between double quotes. Quotes, backslashes, line ends,
tabs and the zero character are escaped by a letter; any other character that is not
shown is given by its code in braces; all else stands for itself.

Main statement: text of plain characters is quoted unchanged (`escapedAll_of_plain`).
-/
import SigScan.Text.Hex
import SigScan.Text.Hidden

namespace SigScan.Text

/-- How a character stands in quoted text. -/
def escaped (c : Char) : List Char :=
  match c with
  | '\x00' => ['\\', '0']
  | '\t' => ['\\', 't']
  | '\r' => ['\\', 'r']
  | '\n' => ['\\', 'n']
  | '"' => ['\\', '"']
  | '\\' => ['\\', '\\']
  | c =>
    if isHidden c then
      '\\' :: 'u' :: '\x7b' :: (Digits.ofNat 16 c.toNat).map Hex.lower ++ ['\x7d']
    else [c]

/-- Text between double quotes. -/
def quoted (s : String) : String :=
  String.ofList ('"' :: (s.toList.flatMap escaped ++ ['"']))

/-- Whether a character stands for itself in quoted text. -/
def isPlain (c : Char) : Bool :=
  escaped c == [c]

/-- Plain characters are quoted unchanged. -/
theorem escapedAll_of_plain {cs : List Char} (h : ∀ c ∈ cs, isPlain c = true) :
    cs.flatMap escaped = cs := by
  induction cs with
  | nil => rfl
  | cons c cs ih =>
    have hc : escaped c = [c] := by simpa [isPlain] using h c (by simp)
    rw [List.flatMap_cons, hc, ih fun d hd => h d (by simp [hd])]
    rfl

end SigScan.Text
