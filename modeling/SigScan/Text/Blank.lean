/-
SigScan.Text.Blank — blank characters, trimming and words.

A blank is a character with the Unicode property White_Space. A word of a text is a
maximal run of characters that are not blank; `words` lists them in order.

Main statements: a run without blanks followed by a blank is the first word
(`words_run_blank`), and such a run alone is the only one (`words_run`).
-/

namespace SigScan.Text

/-! ## Blank characters -/

/-- The Unicode property White_Space: twenty-five characters in ten ranges. -/
def isBlank (c : Char) : Bool :=
  let n := c.toNat
  (9 ≤ n && n ≤ 13) || n == 0x20 || n == 0x85 || n == 0xA0 || n == 0x1680
    || (0x2000 ≤ n && n ≤ 0x200A) || n == 0x2028 || n == 0x2029 || n == 0x202F
    || n == 0x205F || n == 0x3000

/-- The rest of a text after the blanks it starts with. -/
def trimStart (cs : List Char) : List Char :=
  cs.dropWhile isBlank

/-- A text without the blanks it ends with. -/
def trimEnd (cs : List Char) : List Char :=
  (cs.reverse.dropWhile isBlank).reverse

/-- A text without the blanks at its two ends. -/
def trim (cs : List Char) : List Char :=
  trimEnd (trimStart cs)

/-! ## Words -/

/-- The words of a text whose first word has already begun with `run`, given backwards. -/
def wordsAfter (run : List Char) : List Char → List (List Char)
  | [] => if run.isEmpty then [] else [run.reverse]
  | c :: cs =>
    if isBlank c then
      if run.isEmpty then wordsAfter [] cs else run.reverse :: wordsAfter [] cs
    else wordsAfter (c :: run) cs

/-- The maximal runs of characters that are not blank, in order. -/
def words (cs : List Char) : List (List Char) :=
  wordsAfter [] cs

@[simp] theorem words_nil : words [] = [] := rfl

theorem words_blank {c : Char} (h : isBlank c = true) (cs : List Char) :
    words (c :: cs) = words cs := by
  simp [words, wordsAfter, h]

/-- Characters that are not blank extend the word that has begun. -/
theorem wordsAfter_run (run w rest : List Char) (h : ∀ c ∈ w, isBlank c = false) :
    wordsAfter run (w ++ rest) = wordsAfter (w.reverse ++ run) rest := by
  induction w generalizing run with
  | nil => rfl
  | cons c w ih =>
    have hc : isBlank c = false := h c (by simp)
    rw [List.cons_append, wordsAfter, if_neg (by simp [hc]),
      ih _ fun d hd => h d (by simp [hd])]
    simp

/-- A run without blanks that a blank follows is the first word. -/
theorem words_run_blank {w : List Char} (hne : w ≠ []) (h : ∀ c ∈ w, isBlank c = false)
    {b : Char} (hb : isBlank b = true) (rest : List Char) :
    words (w ++ b :: rest) = w :: words rest := by
  have hw : w.reverse.isEmpty = false := by simpa using hne
  rw [words, wordsAfter_run _ _ _ h]
  simp [wordsAfter, hb, hw, words]

/-- A run without blanks is its own only word. -/
theorem words_run {w : List Char} (hne : w ≠ []) (h : ∀ c ∈ w, isBlank c = false) :
    words w = [w] := by
  have := wordsAfter_run [] w [] h
  rw [words, ← List.append_nil w, this]
  simp [wordsAfter, hne]

end SigScan.Text
