/-
SigScan.Proofs.Text.Trim — blanks at the ends of a text.

A text is tight if it neither begins nor ends with a blank. Trimming takes off the blanks
around a tight text and nothing else (`trim_around`), leaves a tight text as it is
(`trim_of_tight`), and makes every text tight (`tight_trim`). The words of a text do not
depend on the blanks at its ends (`words_trim`).
-/
import SigScan.Text.Blank

namespace SigScan.Text

/-- A text neither begins nor ends with a blank. -/
structure Tight (cs : List Char) : Prop where
  head : ∀ c ∈ cs.head?, isBlank c = false
  last : ∀ c ∈ cs.getLast?, isBlank c = false

theorem tight_of_forall {cs : List Char} (h : ∀ c ∈ cs, isBlank c = false) : Tight cs where
  head := fun c hc => h c (List.mem_of_mem_head? hc)
  last := fun c hc => h c (List.mem_of_mem_getLast? hc)

/-! ## Trimming -/

theorem trimStart_append {blanks : List Char} (h : ∀ c ∈ blanks, isBlank c = true)
    (cs : List Char) : trimStart (blanks ++ cs) = trimStart cs :=
  List.dropWhile_append_of_pos h

theorem trimEnd_append {blanks : List Char} (h : ∀ c ∈ blanks, isBlank c = true)
    (cs : List Char) : trimEnd (cs ++ blanks) = trimEnd cs := by
  rw [trimEnd, trimEnd, List.reverse_append,
    List.dropWhile_append_of_pos fun c hc => h c (List.mem_reverse.1 hc)]

theorem trimStart_of_head {cs : List Char} (h : ∀ c ∈ cs.head?, isBlank c = false) :
    trimStart cs = cs := by
  cases cs with
  | nil => rfl
  | cons c cs => simp [trimStart, h c rfl]

theorem trimEnd_of_last {cs : List Char} (h : ∀ c ∈ cs.getLast?, isBlank c = false) :
    trimEnd cs = cs := by
  have hreverse : trimStart cs.reverse = cs.reverse :=
    trimStart_of_head (by rwa [List.head?_reverse])
  rw [trimEnd, ← trimStart, hreverse, List.reverse_reverse]

/-- A tight text is left as it is. -/
theorem trim_of_tight {cs : List Char} (h : Tight cs) : trim cs = cs := by
  rw [trim, trimStart_of_head h.head, trimEnd_of_last h.last]

/-- Of a tight text with blanks around it the blanks are taken off. -/
theorem trim_around {before cs after : List Char} (hbefore : ∀ c ∈ before, isBlank c = true)
    (hafter : ∀ c ∈ after, isBlank c = true) (h : Tight cs) (hne : cs ≠ []) :
    trim (before ++ cs ++ after) = cs := by
  have hhead : (cs ++ after).head? = cs.head? := by
    obtain ⟨c, cs, rfl⟩ := List.exists_cons_of_ne_nil hne
    rfl
  rw [trim, List.append_assoc, trimStart_append hbefore,
    trimStart_of_head (by rw [hhead]; exact h.head), trimEnd_append hafter, trimEnd_of_last h.last]

theorem isBlank_of_mem_takeWhile {cs : List Char} {c : Char} (h : c ∈ cs.takeWhile isBlank) :
    isBlank c = true :=
  List.all_eq_true.1 List.all_takeWhile c h

/-- What is taken off in front is blank. -/
theorem exists_eq_append_trimStart (cs : List Char) :
    ∃ before, (∀ c ∈ before, isBlank c = true) ∧ cs = before ++ trimStart cs :=
  ⟨cs.takeWhile isBlank, fun _ h => isBlank_of_mem_takeWhile h,
    List.takeWhile_append_dropWhile.symm⟩

/-- What is taken off behind is blank. -/
theorem exists_eq_trimEnd_append (cs : List Char) :
    ∃ after, (∀ c ∈ after, isBlank c = true) ∧ cs = trimEnd cs ++ after := by
  refine ⟨(cs.reverse.takeWhile isBlank).reverse, ?_, ?_⟩
  · intro c hc
    exact isBlank_of_mem_takeWhile (List.mem_reverse.1 hc)
  · rw [trimEnd, ← List.reverse_append, List.takeWhile_append_dropWhile, List.reverse_reverse]

/-- Every text is what is left of it with blanks around. -/
theorem exists_eq_around_trim (cs : List Char) :
    ∃ before after, (∀ c ∈ before, isBlank c = true) ∧ (∀ c ∈ after, isBlank c = true)
      ∧ cs = before ++ trim cs ++ after := by
  obtain ⟨before, hbefore, hcs⟩ := exists_eq_append_trimStart cs
  obtain ⟨after, hafter, hstart⟩ := exists_eq_trimEnd_append (trimStart cs)
  exact ⟨before, after, hbefore, hafter, by rw [List.append_assoc, trim, ← hstart, ← hcs]⟩

theorem isBlank_of_mem_head?_trimStart {cs : List Char} {c : Char}
    (h : c ∈ (trimStart cs).head?) : isBlank c = false := by
  have hhead := List.head?_dropWhile_not isBlank cs
  rw [trimStart] at h
  rw [h] at hhead
  simpa using hhead

/-- What is left of a text after trimming is tight. -/
theorem tight_trim (cs : List Char) : Tight (trim cs) where
  head := by
    -- What is left is a beginning of the text without the blanks in front.
    intro c hc
    obtain ⟨after, -, hstart⟩ := exists_eq_trimEnd_append (trimStart cs)
    have hhead : c ∈ (trimStart cs).head? := by
      rw [hstart, ← trim, List.head?_append, Option.mem_def.1 hc]
      rfl
    exact isBlank_of_mem_head?_trimStart hhead
  last := by
    intro c hc
    rw [trim, trimEnd, List.getLast?_reverse] at hc
    exact isBlank_of_mem_head?_trimStart hc

/-! ## Words -/

theorem wordsAfter_blanks {blanks : List Char} (h : ∀ c ∈ blanks, isBlank c = true)
    (run : List Char) : wordsAfter run blanks = wordsAfter run [] := by
  induction blanks generalizing run with
  | nil => rfl
  | cons b blanks ih =>
    have hb : isBlank b = true := h b List.mem_cons_self
    have hnil : wordsAfter [] blanks = [] := ih (fun c hc => h c (List.mem_cons_of_mem b hc)) []
    cases run with
    | nil => simp [wordsAfter, hb, hnil]
    | cons c run => simp [wordsAfter, hb, hnil]

/-- Blanks behind a text make no further word. -/
theorem wordsAfter_append {blanks : List Char} (h : ∀ c ∈ blanks, isBlank c = true)
    (run cs : List Char) : wordsAfter run (cs ++ blanks) = wordsAfter run cs := by
  induction cs generalizing run with
  | nil => exact wordsAfter_blanks h run
  | cons c cs ih => simp only [List.cons_append, wordsAfter, ih]

theorem words_append {blanks : List Char} (h : ∀ c ∈ blanks, isBlank c = true)
    (cs : List Char) : words (blanks ++ cs) = words cs := by
  induction blanks with
  | nil => rfl
  | cons b blanks ih =>
    rw [List.cons_append, words_blank (h b List.mem_cons_self),
      ih fun c hc => h c (List.mem_cons_of_mem b hc)]

/-- Blanks at the ends of a text do not change its words. -/
theorem words_trim (cs : List Char) : words (trim cs) = words cs := by
  obtain ⟨before, after, hbefore, hafter, hcs⟩ := exists_eq_around_trim cs
  conv => rhs; rw [hcs, List.append_assoc, words_append hbefore, words, wordsAfter_append hafter]
  rfl

end SigScan.Text
