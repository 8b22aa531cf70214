/-
SigScan.Signature.Idiom — how a match leads to an address.

A signature is written for one of three addressing idioms: the match is the address,
the match opens with a near call or jump, or its author names the place of a relative
displacement. The idiom fixes the mode of resolution and the offset it starts from.

Main statements: the mode is direct exactly when the offset is zero
(`mode_classify_eq_direct_iff`), and without an author's offset only the first token
matters (`classify_none`).
-/
import SigScan.Pattern

namespace SigScan

/-- How the place of a match becomes the final address. -/
inductive Mode where
  /-- The match, moved by the offset, is the address. -/
  | direct
  /-- A signed 32-bit displacement at match and offset is applied to the address after it. -/
  | relativeDisplacement
deriving DecidableEq, Repr

/-- The addressing idiom that a signature is written for. -/
inductive Idiom where
  /-- The pattern starts at the target itself. -/
  | direct
  /-- The pattern starts with a near call or jump, whose operand follows the opcode. -/
  | nearCallOrJump
  /-- The author names the place of the displacement. -/
  | explicitRelative
deriving DecidableEq, Repr

/-- The opcode of a near call with a 32-bit operand. -/
def nearCallOpcode : UInt8 := 0xE8

/-- The opcode of a near jump with a 32-bit operand. -/
def nearJumpOpcode : UInt8 := 0xE9

namespace Mode

/-- The name that output gives a mode. -/
def name : Mode → String
  | direct => "Direct"
  | relativeDisplacement => "RelativeDisplacement"

end Mode

namespace Idiom

/-- The name that output gives an idiom. -/
def name : Idiom → String
  | direct => "Direct"
  | nearCallOrJump => "NearCallOrJump"
  | explicitRelative => "ExplicitRelative"

/-- Only the direct idiom resolves directly. -/
def mode : Idiom → Mode
  | direct => .direct
  | nearCallOrJump => .relativeDisplacement
  | explicitRelative => .relativeDisplacement

/-- Whether a pattern opens with a near call or jump; a wildcard opens with neither. -/
def opensNear : Token → Bool
  | .byte b => b == nearCallOpcode || b == nearJumpOpcode
  | .any => false

/-- The idiom and the offset of resolution. An author's offset wins, and zero there means
that the match is the address; otherwise the first token decides. -/
def classify (first : Token) : Option UInt32 → Idiom × UInt32
  | some offset => if offset = 0 then (direct, 0) else (explicitRelative, offset)
  | none => if opensNear first then (nearCallOrJump, 1) else (direct, 0)

theorem classify_none (first : Token) :
    classify first none = if opensNear first then (nearCallOrJump, 1) else (direct, 0) := rfl

/-- The mode is direct exactly when the offset of resolution is zero. -/
theorem mode_classify_eq_direct_iff (first : Token) (offset : Option UInt32) :
    (classify first offset).1.mode = .direct ↔ (classify first offset).2 = 0 := by
  cases offset with
  | none => by_cases h : opensNear first <;> simp [classify, h, mode]
  | some n => by_cases h : n = 0 <;> simp [classify, h, mode]

end Idiom

end SigScan
