/-
SigScan.Signature.Packed — patterns packed into masked 64-bit words.

Eight places of a pattern share one word, the first place lowest. The mask has all bits
of a lane where a literal byte stands and none elsewhere; the data holds the literal
bytes and zero elsewhere. The last word is filled up with wildcards.

Main statements: a packed pattern has one word for each eight places begun
(`length_pack`), and each word holds its own eight places (`getElem?_pack`).
-/
import SigScan.Pattern
import SigScan.Memory.Bytes

namespace SigScan

/-- Eight places of a pattern: where the mask has bits, a word must agree with the data. -/
structure MaskedWord where
  data : UInt64
  mask : UInt64
deriving DecidableEq, Repr

namespace MaskedWord

/-- Number of pattern places that share a word. -/
def width : Nat := 8

/-- The data of a place: its literal byte, zero for a wildcard. -/
def dataByte : Token → UInt8
  | .byte b => b
  | .any => 0

/-- The mask of a place: all bits for a literal byte, none for a wildcard. -/
def maskByte : Token → UInt8
  | .byte _ => 0xFF
  | .any => 0

/-- Up to eight places as one word. -/
def ofTokens (tokens : Pattern) : MaskedWord :=
  { data := Bytes.word (tokens.map dataByte)
    mask := Bytes.word (tokens.map maskByte) }

/-- Whether a word of memory agrees with the data wherever the mask has bits. -/
def accepts (w : MaskedWord) (word : UInt64) : Bool :=
  (word ^^^ w.data) &&& w.mask == 0

/-- The token in lane `k`: a wildcard where the mask has no bits. -/
def token (w : MaskedWord) (k : Nat) : Token :=
  if Bytes.lane w.mask k = 0 then .any else .byte (Bytes.lane w.data k)

end MaskedWord

namespace Pattern

/-- The first `count` words of a pattern, eight places each. -/
def firstWords : Nat → Pattern → List MaskedWord
  | 0, _ => []
  | count + 1, tokens => MaskedWord.ofTokens (tokens.take 8) :: firstWords count (tokens.drop 8)

/-- The words of a pattern: place `i` is lane `i % 8` of word `i / 8`. -/
def pack (tokens : Pattern) : List MaskedWord :=
  firstWords ((tokens.length + 7) / 8) tokens

theorem length_firstWords (count : Nat) (tokens : Pattern) :
    (firstWords count tokens).length = count := by
  induction count generalizing tokens with
  | zero => rfl
  | succ n ih => simp [firstWords, ih]

theorem getElem?_firstWords (count : Nat) (tokens : Pattern) (k : Nat) :
    (firstWords count tokens)[k]? =
      if k < count then some (MaskedWord.ofTokens ((tokens.drop (8 * k)).take 8)) else none := by
  induction count generalizing tokens k with
  | zero => simp [firstWords]
  | succ n ih =>
    cases k with
    | zero => simp [firstWords]
    | succ k => simp [firstWords, ih, List.drop_drop, Nat.mul_add, Nat.add_comm 8]

theorem length_pack (tokens : Pattern) : (pack tokens).length = (tokens.length + 7) / 8 :=
  length_firstWords _ _

theorem getElem?_pack (tokens : Pattern) (k : Nat) :
    (pack tokens)[k]? =
      if k < (tokens.length + 7) / 8 then
        some (MaskedWord.ofTokens ((tokens.drop (8 * k)).take 8))
      else none :=
  getElem?_firstWords _ _ _

end Pattern

end SigScan
