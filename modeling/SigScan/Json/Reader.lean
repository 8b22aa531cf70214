/-
SigScan.Json.Reader — reading JSON from left to right.

A reader takes the characters that are left of a text and returns a value and what is
left behind it. The first thing that goes wrong ends the reading. Between the parts of a
text blanks, tabs and line ends may stand.

A loop that reads parts of no fixed length is bounded by a list of characters, of which
each step drops one. The text in front of the loop is long enough for that, since each
step takes a character or more of it, and nothing has to be counted.

Main statements: space in front of a part does not matter (`next_space`), and a whole
text is read exactly if only space is left behind the value (`whole_eq_ok_iff`).
-/
import SigScan.Json.Fault

namespace SigScan.Json

/-- Reads a value off the front of what is left of a text. -/
abbrev Reader (α : Type) := List Char → Except Fault (α × List Char)

/-- The characters that may stand between the parts of a text. -/
def isSpace (c : Char) : Bool :=
  c == ' ' || c == '\n' || c == '\t' || c == '\r'

/-- What is left behind the space at the front. -/
def skipSpace (cs : List Char) : List Char :=
  cs.dropWhile isSpace

/-- The first character that is not space. A text that holds none is cut short. -/
def next : Reader Char := fun cs =>
  match skipSpace cs with
  | [] => .error .truncated
  | c :: rest => .ok (c, rest)

/-- The rest of a word of fixed letters. -/
def spell : List Char → Reader Unit
  | [], cs => .ok ((), cs)
  | _ :: _, [] => .error .truncated
  | w :: ws, c :: cs => if c = w then spell ws cs else .error .malformed

/-- Reads a whole text: nothing but space may be left behind the value. -/
def whole {α : Type} (read : Reader α) (text : String) : Except Fault α :=
  match read text.toList with
  | .error fault => .error fault
  | .ok (a, rest) => if (skipSpace rest).isEmpty then .ok a else .error .malformed

theorem skipSpace_cons_of_not_isSpace {c : Char} (h : isSpace c = false) (cs : List Char) :
    skipSpace (c :: cs) = c :: cs := by
  simp [skipSpace, h]

theorem skipSpace_append {s : List Char} (h : ∀ c ∈ s, isSpace c = true) (cs : List Char) :
    skipSpace (s ++ cs) = skipSpace cs := by
  rw [skipSpace, List.dropWhile_append_of_pos h]
  rfl

theorem next_cons {c : Char} (h : isSpace c = false) (cs : List Char) :
    next (c :: cs) = .ok (c, cs) := by
  simp [next, skipSpace_cons_of_not_isSpace h]

/-- Space in front of a part is passed over. -/
theorem next_space {s : List Char} (h : ∀ c ∈ s, isSpace c = true) (cs : List Char) :
    next (s ++ cs) = next cs := by
  simp [next, skipSpace_append h]

theorem whole_eq_ok_iff {α : Type} {read : Reader α} {text : String} {a : α} :
    whole read text = .ok a ↔
      ∃ rest, read text.toList = .ok (a, rest) ∧ skipSpace rest = [] := by
  unfold whole
  cases h : read text.toList with
  | error fault => simp
  | ok p =>
    obtain ⟨b, rest⟩ := p
    simp only [List.isEmpty_iff, Except.ok.injEq, Prod.mk.injEq]
    by_cases hr : skipSpace rest = []
    · rw [if_pos hr, Except.ok.injEq]
      exact ⟨fun hb => ⟨rest, ⟨hb, rfl⟩, hr⟩, fun ⟨_, ⟨hb, _⟩, _⟩ => hb⟩
    · rw [if_neg hr]
      exact ⟨fun hb => absurd hb (by simp), fun ⟨_, ⟨_, he⟩, hs⟩ => absurd (he ▸ hs) hr⟩

end SigScan.Json
