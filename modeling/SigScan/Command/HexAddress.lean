/-
SigScan.Command.HexAddress — addresses on the command line.

An address is given in hexadecimal digits of either case. Blanks at the ends do not
count, nor does a mark `0x` or `0X` in front; the mark may be repeated, but no small one
behind a capital one. Underscores may stand anywhere among the digits, and one plus sign
in front of them. The number must fit into 64 bits.
-/
import SigScan.Text.Blank
import SigScan.Text.Hex
import SigScan.Text.Quoted

namespace SigScan.Command

open SigScan.Text

namespace HexAddress

/-- The message about a text that is no address; it quotes the text with its blanks. -/
def message (text : String) : Hex.Fault → String
  | .empty => "Invalid hex address: " ++ quoted text
  | fault => "Invalid hex address " ++ quoted text ++ ": " ++ fault.text

/-- What is left when a mark of two characters is taken off the front as often as it is
there. -/
def dropMarks (a b : Char) : List Char → List Char
  | c :: d :: rest => if c = a ∧ d = b then dropMarks a b rest else c :: d :: rest
  | cs => cs

/-- The characters that count: no blanks at the ends, no marks, no underscores. -/
def digitsOf (text : String) : List Char :=
  (dropMarks '0' 'X' (dropMarks '0' 'x' (trim text.toList))).filter (· != '_')

/-- Reads an address. -/
def parse (text : String) : Except Hex.Fault UInt64 :=
  (Hex.number UInt64.size (digitsOf text)).map UInt64.ofNat

end HexAddress

end SigScan.Command
