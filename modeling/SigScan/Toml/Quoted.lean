/-
SigScan.Toml.Quoted — strings of the four kinds.

A string stands between quotes, in which a backslash begins an escape, or between
apostrophes, in which it does not. Between three of either it may run over several
lines; one or two of them may then stand inside, also right in front of the closing
three. A backslash at the end of such a line joins it with the next one that is not
blank.

The text of a string on one line is kept, since keys may be written so; of the others it
only matters where they end.

Main statements: a string without escapes and quotes reads back (`basicRest_of_plain`).
-/
import SigScan.Toml.Reader

namespace SigScan.Toml

open SigScan.Text

/-! ## Strings on one line -/

/-- The value of as many hexadecimal digits as are asked for. -/
def hexDigits : Nat → Nat → Reader Nat
  | 0, n, cs => some (n, cs)
  | _ + 1, _, [] => none
  | count + 1, n, c :: cs =>
    match Hex.value? c with
    | none => none
    | some d => hexDigits count (16 * n + d) cs

/-- The character of a code, unless the code is none of Unicode. -/
def charOfCode (n : Nat) : Option Char :=
  if h : n.isValidChar then some (Char.ofNatAux n h) else none

/-- The character that an escape stands for, behind its backslash. -/
def escape : Reader Char
  | [] => none
  | c :: rest =>
    let coded (count : Nat) : Option (Char × List Char) :=
      match hexDigits count 0 rest with
      | none => none
      | some (n, rest) => (charOfCode n).map fun d => (d, rest)
    match c with
    | 'b' => some ('\x08', rest)
    | 'f' => some ('\x0c', rest)
    | 'n' => some ('\n', rest)
    | 'r' => some ('\r', rest)
    | 't' => some ('\t', rest)
    | '"' => some ('"', rest)
    | '\\' => some ('\\', rest)
    | 'u' => coded 4
    | 'U' => coded 8
    | _ => none

/-- The characters up to the closing quote, behind those of `done`, which are given
backwards. Each step takes a character or more, so `bound` need not be longer than the text
that is left. -/
def basicRest : List Char → List Char → Reader (List Char)
  | [], _, _ => none
  | _ :: _, _, [] => none
  | _ :: bound, done, c :: rest =>
    if c = '"' then some (done.reverse, rest)
    else if c = '\\' then
      match escape rest with
      | none => none
      | some (d, rest) => basicRest bound (d :: done) rest
    else if isPlain c then basicRest bound (c :: done) rest
    else none

/-- Whether a character stands for itself between apostrophes. -/
def isLiteral (c : Char) : Bool :=
  isPlain c && c != '\''

/-- The characters up to the closing apostrophe. -/
def literalRest : Reader (List Char) := fun cs =>
  match skipChar '\'' (cs.dropWhile isLiteral) with
  | none => none
  | some rest => some (cs.takeWhile isLiteral, rest)

/-! ## Strings over several lines -/

/-- Number of marks at the front of a text. -/
def countMarks (mark : Char) (cs : List Char) : Nat :=
  (cs.takeWhile (· == mark)).length

/-- What is left behind blanks and line ends. -/
def skipGap (cs : List Char) : List Char :=
  cs.dropWhile fun c => isBlank c || c == '\n'

/-- What is left behind the line end and the blank lines that a backslash joins. A carriage
return belongs to the line feed behind it. -/
def skipJoin : List Char → List Char → List Char
  | [], cs => cs
  | _ :: bound, cs =>
    match skipGap cs with
    | '\r' :: '\n' :: rest => skipJoin bound rest
    | rest => rest

/-- What is left behind a string over several lines, behind its opening three marks. Three
marks or more close it, of which at most five belong to it. Each step takes a character or
more, so `bound` need not be longer than the text that is left. -/
def multilineRest (mark : Char) : List Char → List Char → Option (List Char)
  | [], _ => none
  | _ :: _, [] => none
  | _ :: bound, c :: rest =>
    if c = mark then
      let count := countMarks mark (c :: rest)
      if 3 ≤ count then some ((c :: rest).drop (min count 5))
      else multilineRest mark bound rest
    else if c = '\\' ∧ mark = '"' then
      match lineEnd (skipBlanks rest) with
      | some rest => multilineRest mark bound (skipJoin rest rest)
      | none =>
        match escape rest with
        | none => none
        | some (_, rest) => multilineRest mark bound rest
    else if isPlain c then multilineRest mark bound rest
    else
      match lineEnd (c :: rest) with
      | some rest => multilineRest mark bound rest
      | none => none

/-- What is left behind a string of any kind. -/
def skipString : List Char → Option (List Char)
  | '"' :: '"' :: '"' :: rest => multilineRest '"' rest rest
  | '\'' :: '\'' :: '\'' :: rest => multilineRest '\'' rest rest
  | '"' :: rest => (basicRest rest [] rest).map Prod.snd
  | '\'' :: rest => (literalRest rest).map Prod.snd
  | _ => none

/-! ## Reading what was written -/

/-- Whether a character stands for itself between quotes. -/
def isBasic (c : Char) : Bool :=
  isPlain c && c != '"' && c != '\\'

/-- Characters that stand for themselves read back. -/
theorem basicRest_of_plain {s : List Char} (h : ∀ c ∈ s, isBasic c = true) (done rest : List Char)
    {bound : List Char} (hb : s.length < bound.length) :
    basicRest bound done (s ++ '"' :: rest) = some (done.reverse ++ s, rest) := by
  induction s generalizing bound done with
  | nil =>
    obtain ⟨b, bs, rfl⟩ := List.exists_cons_of_length_pos (by omega : 0 < bound.length)
    simp [basicRest]
  | cons c s ih =>
    obtain ⟨b, bs, rfl⟩ := List.exists_cons_of_length_pos (by omega : 0 < bound.length)
    have hc := h c (by simp)
    simp only [isBasic, Bool.and_eq_true, bne_iff_ne, ne_eq] at hc
    rw [List.cons_append, basicRest, if_neg hc.1.2, if_neg hc.2, if_pos hc.1.1,
      ih (fun d hd => h d (by simp [hd])) _ (by simpa using hb)]
    simp

end SigScan.Toml
