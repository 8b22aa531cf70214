/-
SigScan.Proofs.Json.Written — written values are read back.

`Written read text a` says that a reader takes `text` off the front of what is left, with any
space in front of it, as the value `a`. It holds of strings, natural numbers and truth
values, and passes from the elements of an array to the array (`Written.array`) and from the
members of an object to the object (`Written.object`) and the record (`Written.record`), at
every depth of indentation. What stands behind a value must not go on with a number; a comma,
the end of a line and the end of the text do not.

The loops over elements and members are bounded by the text in front of them. Each part
takes a character of it at least, so the bound is never reached.
-/
import Mathlib.Data.List.Forall2
import SigScan.Json.Collection
import SigScan.Json.Layout

namespace SigScan.Json

open SigScan.Text

variable {α σ : Type}

/-- The reader takes a text for a value, with space in front of it, whatever stands behind it
that does not go on with a number. The text begins neither with space nor with the bracket
that would close an array. -/
structure Written (read : Reader α) (text : List Char) (a : α) : Prop where
  opens : ∃ c cs, text = c :: cs ∧ isSpace c = false ∧ c ≠ ']'
  reads : ∀ space rest, (∀ c ∈ space, isSpace c = true) → endsNumber rest = true →
    read (space ++ text ++ rest) = .ok (a, rest)

theorem Written.reads_here {read : Reader α} {text : List Char} {a : α} (h : Written read text a)
    {rest : List Char} (hrest : endsNumber rest = true) : read (text ++ rest) = .ok (a, rest) :=
  h.reads [] rest (by simp) hrest

/-- A reader passes over space in front of what it reads. -/
def SkipsSpace (read : Reader α) : Prop :=
  ∀ space cs, (∀ c ∈ space, isSpace c = true) → read (space ++ cs) = read cs

theorem Written.of_skipsSpace {read : Reader α} (hskips : SkipsSpace read) {text : List Char}
    {a : α}
    (hopens : ∃ c cs, text = c :: cs ∧ isSpace c = false ∧ c ≠ ']')
    (hread : ∀ rest, endsNumber rest = true → read (text ++ rest) = .ok (a, rest)) :
    Written read text a where
  opens := hopens
  reads := by
    intro space rest hspace hrest
    rw [List.append_assoc, hskips space _ hspace, hread rest hrest]

/-- What is read off a text by way of another value. -/
theorem Written.via {β : Type} {inner : Reader β} {read : Reader α} {text : List Char} {b : β}
    {a : α} (h : Written inner text b)
    (hread : ∀ cs rest, inner cs = .ok (b, rest) → read cs = .ok (a, rest)) :
    Written read text a where
  opens := h.opens
  reads := by
    intro space rest hspace hrest
    exact hread _ rest (h.reads space rest hspace hrest)

/-! ## Strings, numbers and truth values -/

theorem skipsSpace_string : SkipsSpace string := by
  intro space cs h
  simp only [string, next_space h]

theorem skipsSpace_natural (bound : Nat) : SkipsSpace (natural bound) := by
  intro space cs h
  simp only [natural, next_space h]

theorem skipsSpace_bool : SkipsSpace bool := by
  intro space cs h
  simp only [bool, next_space h]

theorem written_quote (s : String) : Written string (quote s) s := by
  refine .of_skipsSpace skipsSpace_string ⟨'"', _, rfl, by decide, by decide⟩ ?_
  intro rest _
  exact string_quote s rest

theorem written_text {bound n : Nat} (hb : n ≤ bound) (hn : n < UInt64.size) :
    Written (natural bound) (Decimal.text n) n := by
  obtain ⟨d, ds, hd, ht⟩ := text_eq_cons n
  have hclose : ∀ d, d < 10 → Decimal.digit d ≠ ']' := by decide
  refine .of_skipsSpace (skipsSpace_natural bound) ⟨_, _, ht, isSpace_digit hd, hclose d hd⟩ ?_
  intro rest hrest
  exact natural_text hb hn hrest

theorem written_boolText (b : Bool) : Written bool (boolText b) b := by
  have hopens : ∃ c cs, boolText b = c :: cs ∧ isSpace c = false ∧ c ≠ ']' := by
    cases b with
    | true => exact ⟨'t', _, rfl, by decide, by decide⟩
    | false => exact ⟨'f', _, rfl, by decide, by decide⟩
  refine .of_skipsSpace skipsSpace_bool hopens ?_
  intro rest _
  exact bool_boolText b rest

/-- A value that may be given as null and does not begin like it. -/
theorem Written.optional {read : Reader α} {text : List Char} {a : α} (h : Written read text a)
    (hnull : ∀ c ∈ text.head?, c ≠ 'n') : Written (optional read) text (some a) where
  opens := h.opens
  reads := by
    intro space rest hspace hrest
    obtain ⟨c, cs, rfl, hc, -⟩ := h.opens
    have hread := h.reads space rest hspace hrest
    rw [List.append_assoc] at hread ⊢
    -- The first character alone decides for null; the value is then read from where it began.
    unfold Json.optional
    rw [next_space hspace, List.cons_append, next_cons hc]
    split
    · next heq =>
      obtain ⟨rfl, -⟩ := Prod.mk.inj (Except.ok.inj heq)
      exact absurd rfl (hnull _ rfl)
    · rw [← List.cons_append, hread]

/-! ## The lines of a block -/

/-- A block goes on with a comma or the end of a line. -/
theorem endsNumber_furtherParts (depth : Nat) (parts : List (List Char)) (rest : List Char) :
    endsNumber (furtherParts depth parts ++ (lineStart depth ++ rest)) = true := by
  cases parts with
  | nil => rfl
  | cons part parts => rfl

theorem length_le_furtherParts (depth : Nat) (parts : List (List Char)) :
    parts.length ≤ (furtherParts depth parts).length := by
  induction parts with
  | nil => simp
  | cons part parts ih =>
    simp only [furtherParts, List.length_cons, List.length_append]
    omega

theorem furtherParts_cons_append (depth : Nat) (part : List Char) (parts : List (List Char))
    (rest : List Char) :
    furtherParts depth (part :: parts) ++ rest =
      ',' :: (lineStart (depth + 1) ++ (part ++ (furtherParts depth parts ++ rest))) := by
  simp [furtherParts]

theorem block_cons_append (opening closing : Char) (depth : Nat) (part : List Char)
    (parts : List (List Char)) (rest : List Char) :
    block opening closing depth (part :: parts) ++ rest =
      opening :: (lineStart (depth + 1) ++ (part ++ (furtherParts depth parts ++
        (lineStart depth ++ closing :: rest)))) := by
  simp [block]

theorem block_opens (opening closing : Char) (depth : Nat) (parts : List (List Char)) :
    ∃ cs, block opening closing depth parts = opening :: cs := by
  cases parts with
  | nil => exact ⟨_, rfl⟩
  | cons part parts => exact ⟨_, rfl⟩

theorem next_lineStart_cons {c : Char} (h : isSpace c = false) (depth : Nat) (cs : List Char) :
    next (lineStart depth ++ c :: cs) = .ok (c, cs) := by
  rw [next_lineStart, next_cons h]

/-- A bound that outlasts the parts still outlasts them when one of each is gone. -/
theorem bound_step {bound : List Char} {count : Nat} (h : count + 1 < bound.length) :
    bound ≠ [] ∧ count < bound.tail.length := by
  refine ⟨List.ne_nil_of_length_pos (Nat.zero_lt_of_lt h), ?_⟩
  rw [List.length_tail]
  exact Nat.lt_sub_of_add_lt h

/-! ## Arrays -/

section Arrays

variable {read : Reader α}

theorem elements_close {bound : List Char} (hbound : bound ≠ []) (first : Bool) (done : List α)
    {cs rest : List Char} (h : next cs = .ok (']', rest)) :
    elements read bound first done cs = .ok (done.reverse, rest) := by
  obtain ⟨b, bs, rfl⟩ := List.exists_cons_of_ne_nil hbound
  simp [elements, moreElements, h]

/-- An element at the front of an array. -/
theorem elements_first {bound : List Char} (hbound : bound ≠ []) {depth : Nat}
    {part rest : List Char} {a : α} (h : Written read part a) (hrest : endsNumber rest = true) :
    elements read bound true [] (lineStart depth ++ (part ++ rest)) =
      elements read bound.tail false [a] rest := by
  obtain ⟨b, bs, rfl⟩ := List.exists_cons_of_ne_nil hbound
  obtain ⟨c, cs, rfl, hspace, hc⟩ := h.opens
  have hread := h.reads_here hrest
  rw [List.cons_append] at hread ⊢
  simp [elements, moreElements, next_lineStart_cons hspace, hc, hread]

/-- An element behind another one. -/
theorem elements_further {bound : List Char} (hbound : bound ≠ []) (done : List α) {depth : Nat}
    {part rest : List Char} {a : α} (h : Written read part a) (hrest : endsNumber rest = true) :
    elements read bound false done (',' :: (lineStart depth ++ (part ++ rest))) =
      elements read bound.tail false (a :: done) rest := by
  obtain ⟨b, bs, rfl⟩ := List.exists_cons_of_ne_nil hbound
  obtain ⟨c, cs, rfl, hspace, hc⟩ := h.opens
  have hread := h.reads_here hrest
  have hcomma : isSpace ',' = false := by decide
  rw [List.cons_append] at hread ⊢
  simp [elements, moreElements, next_cons hcomma, next_lineStart_cons hspace, hc, hread]

/-- The elements behind the first one, each on a line of its own, and the closing bracket. -/
theorem elements_furtherParts {parts : List (List Char)} {as : List α}
    (h : List.Forall₂ (Written read) parts as) (depth : Nat) (rest bound : List Char)
    (done : List α) (hbound : parts.length < bound.length) :
    elements read bound false done (furtherParts depth parts ++ (lineStart depth ++ ']' :: rest)) =
      .ok (done.reverse ++ as, rest) := by
  induction h generalizing bound done with
  | nil =>
    have hne : bound ≠ [] := List.ne_nil_of_length_pos hbound
    rw [List.append_nil]
    exact elements_close hne false done (next_lineStart_cons (by decide) depth rest)
  | @cons part a parts as hpart hparts ih =>
    obtain ⟨hne, htail⟩ := bound_step hbound
    rw [furtherParts_cons_append,
      elements_further hne done hpart (endsNumber_furtherParts depth parts _), ih _ _ htail]
    simp

theorem skipsSpace_array (read : Reader α) : SkipsSpace (array read) := by
  intro space cs h
  simp only [array, next_space h]

theorem array_cons (cs : List Char) : array read ('[' :: cs) = elements read cs true [] cs := by
  simp [array, next_cons (show isSpace '[' = false by decide)]

/-- An array is read back if its elements are. -/
theorem Written.array {parts : List (List Char)} {as : List α}
    (h : List.Forall₂ (Written read) parts as) (depth : Nat) :
    Written (array read) (arrayText depth parts) as := by
  obtain ⟨cs, hcs⟩ := block_opens '[' ']' depth parts
  refine .of_skipsSpace (skipsSpace_array read) ⟨'[', cs, hcs, by decide, by decide⟩ ?_
  intro rest _
  cases h with
  | nil =>
    show Json.array read ('[' :: ']' :: rest) = .ok ([], rest)
    rw [array_cons]
    exact elements_close (by simp) true [] (next_cons (by decide) rest)
  | @cons part a parts as hpart hparts =>
    have hlen := length_le_furtherParts depth parts
    rw [arrayText, block_cons_append, array_cons,
      elements_first (by simp [lineStart]) hpart (endsNumber_furtherParts depth _ _),
      elements_furtherParts hparts depth rest _ [a]]
    · rfl
    · simp only [lineStart, List.cons_append, List.tail_cons, List.length_append, List.length_cons]
      omega

end Arrays

/-! ## Objects -/

/-- Members of an object by name and written value, one behind the other: each is admitted
after those in front of it and leads from what they have added to what it adds itself. -/
inductive Adds (member : σ → String → Except Fault (Reader σ)) :
    σ → List (String × List Char) → σ → Prop where
  | nil (s : σ) : Adds member s [] s
  | cons {s t u : σ} {name : String} {text : List Char} {ms : List (String × List Char)}
      {read : Reader σ} (hmember : member s name = .ok read) (htext : Written read text t)
      (hms : Adds member t ms u) : Adds member s ((name, text) :: ms) u

section Objects

variable {member : σ → String → Except Fault (Reader σ)}

/-- The written members of an object. -/
def memberTexts (ms : List (String × List Char)) : List (List Char) :=
  ms.map fun (name, value) => memberText name value

theorem length_memberTexts (ms : List (String × List Char)) :
    (memberTexts ms).length = ms.length :=
  List.length_map _

theorem memberText_append (name : String) (value rest : List Char) :
    memberText name value ++ rest = quote name ++ ':' :: ' ' :: (value ++ rest) := by
  simp [memberText]

theorem moreMembers_first (depth : Nat) (name : String) (rest : List Char) :
    moreMembers true (lineStart depth ++ (quote name ++ rest)) = .ok (some name, rest) := by
  have hread := stringRest_quote name rest
  have hnext := next_lineStart_cons (show isSpace '"' = false by decide) depth
    ((quote name).tail ++ rest)
  show moreMembers true (lineStart depth ++ '"' :: ((quote name).tail ++ rest)) = _
  simp [moreMembers, hnext, hread]

theorem moreMembers_further (depth : Nat) (name : String) (rest : List Char) :
    moreMembers false (',' :: (lineStart depth ++ (quote name ++ rest))) =
      .ok (some name, rest) := by
  have hread := stringRest_quote name rest
  have hcomma : isSpace ',' = false := by decide
  have hnext := next_lineStart_cons (show isSpace '"' = false by decide) depth
    ((quote name).tail ++ rest)
  show moreMembers false (',' :: (lineStart depth ++ '"' :: ((quote name).tail ++ rest))) = _
  simp [moreMembers, next_cons hcomma, hnext, hread]

theorem members_close {bound : List Char} (hbound : bound ≠ []) (first : Bool) (s : σ)
    {cs rest : List Char} (h : next cs = .ok ('\x7d', rest)) :
    members member bound first s cs = .ok (s, rest) := by
  obtain ⟨b, bs, rfl⟩ := List.exists_cons_of_ne_nil hbound
  simp [members, moreMembers, h]

/-- Behind its name a member is read up to what stands behind its value. -/
theorem members_of_name {bound : List Char} (hbound : bound ≠ []) {first : Bool} {s t : σ}
    {name : String} {text cs rest : List Char} {read : Reader σ}
    (hname : moreMembers first cs = .ok (some name, ':' :: ' ' :: (text ++ rest)))
    (hmember : member s name = .ok read) (htext : Written read text t)
    (hrest : endsNumber rest = true) :
    members member bound first s cs = members member bound.tail false t rest := by
  obtain ⟨b, bs, rfl⟩ := List.exists_cons_of_ne_nil hbound
  have hcolon : colon (':' :: ' ' :: (text ++ rest)) = .ok ((), ' ' :: (text ++ rest)) := by
    simp [colon, next_cons (show isSpace ':' = false by decide)]
  have hread : read (' ' :: (text ++ rest)) = .ok (t, rest) :=
    htext.reads [' '] rest (List.forall_mem_singleton.2 (by decide)) hrest
  simp [members, hname, hmember, hcolon, hread]

/-- The members behind the first one, each on a line of its own, and the closing brace. -/
theorem members_furtherParts {s t : σ} {ms : List (String × List Char)} (h : Adds member s ms t)
    (depth : Nat) (rest bound : List Char) (hbound : ms.length < bound.length) :
    members member bound false s
        (furtherParts depth (memberTexts ms) ++ (lineStart depth ++ '\x7d' :: rest)) =
      .ok (t, rest) := by
  induction h generalizing bound with
  | nil s =>
    have hne : bound ≠ [] := List.ne_nil_of_length_pos hbound
    exact members_close hne false s (next_lineStart_cons (by decide) depth rest)
  | @cons s t u name text ms read hmember htext hms ih =>
    obtain ⟨hne, htail⟩ := bound_step hbound
    have hparts : memberTexts ((name, text) :: ms) = memberText name text :: memberTexts ms := rfl
    rw [hparts, furtherParts_cons_append, memberText_append,
      members_of_name hne (moreMembers_further (depth + 1) name _) hmember htext
        (endsNumber_furtherParts depth (memberTexts ms) _), ih _ htail]

/-- The members of a written object are read up to its brace. -/
theorem members_objectText {s t : σ} {ms : List (String × List Char)} (h : Adds member s ms t)
    (depth : Nat) (rest : List Char) :
    ∃ cs, objectText depth ms ++ rest = '\x7b' :: cs
      ∧ members member cs true s cs = .ok (t, rest) := by
  cases h with
  | nil =>
    exact ⟨'\x7d' :: rest, rfl, members_close (by simp) true s (next_cons (by decide) rest)⟩
  | @cons _ t _ name text ms read hmember htext hms =>
    have hlen := length_le_furtherParts depth (memberTexts ms)
    refine ⟨_, block_cons_append '\x7b' '\x7d' depth (memberText name text) (memberTexts ms) rest,
      ?_⟩
    rw [memberText_append, members_of_name (by simp [lineStart])
      (moreMembers_first (depth + 1) name _) hmember htext
      (endsNumber_furtherParts depth (memberTexts ms) _), members_furtherParts hms]
    rw [length_memberTexts] at hlen
    simp only [lineStart, List.cons_append, List.tail_cons, List.length_append, List.length_cons]
    omega

theorem objectText_opens (depth : Nat) (ms : List (String × List Char)) :
    ∃ c cs, objectText depth ms = c :: cs ∧ isSpace c = false ∧ c ≠ ']' := by
  obtain ⟨cs, hcs⟩ := block_opens '\x7b' '\x7d' depth (memberTexts ms)
  exact ⟨_, cs, hcs, by decide, by decide⟩

end Objects

/-! ## Objects with values of one type -/

theorem skipsSpace_object (read : Reader α) : SkipsSpace (object read) := by
  intro space cs h
  simp only [object, next_space h]

/-- What a member adds to an object whose values have one type: a pair in front of those found
before. -/
def pairMember (read : Reader α) (found : List (String × α)) (name : String) :
    Except Fault (Reader (List (String × α))) :=
  .ok fun cs =>
    match read cs with
    | .error fault => .error fault
    | .ok (a, rest) => .ok ((name, a) :: found, rest)

theorem object_of_members {read : Reader α} {cs rest : List Char} {found : List (String × α)}
    (h : members (pairMember read) cs true [] cs = .ok (found, rest)) :
    object read ('\x7b' :: cs) = .ok (found.reverse, rest) := by
  have hopen : isSpace '\x7b' = false := by decide
  simp only [object, next_cons hopen, if_true]
  split
  · next fault hfault => exact absurd (h.symm.trans hfault) (by simp)
  · next found' rest' hfound =>
    obtain ⟨rfl, rfl⟩ := Prod.mk.inj (Except.ok.inj (h.symm.trans hfound))
    rfl

theorem adds_pairs {read : Reader α} {write : α → List Char} {pairs : List (String × α)}
    (h : ∀ p ∈ pairs, Written read (write p.2) p.2) (found : List (String × α)) :
    Adds (pairMember read) found (pairs.map fun (name, a) => (name, write a))
      (pairs.reverse ++ found) := by
  induction pairs generalizing found with
  | nil => exact .nil found
  | cons p pairs ih =>
    obtain ⟨name, a⟩ := p
    have ha := h (name, a) List.mem_cons_self
    have hrest := ih (fun q hq => h q (List.mem_cons_of_mem _ hq)) ((name, a) :: found)
    rw [List.reverse_cons, List.append_assoc]
    refine .cons rfl (ha.via ?_) hrest
    intro cs rest hread
    simp only [hread]

/-- An object is read back in the order of its members if its values are. -/
theorem Written.object {read : Reader α} {write : α → List Char} {pairs : List (String × α)}
    (h : ∀ p ∈ pairs, Written read (write p.2) p.2) (depth : Nat) :
    Written (object read) (objectText depth (pairs.map fun (name, a) => (name, write a)))
      pairs := by
  refine .of_skipsSpace (skipsSpace_object read) (objectText_opens depth _) ?_
  intro rest _
  obtain ⟨cs, hcs, hmembers⟩ := members_objectText (adds_pairs h []) depth rest
  rw [hcs, object_of_members hmembers]
  simp

/-! ## Records -/

theorem skipsSpace_record {fields : List (Field σ)} {start : σ} {finish : σ → Option α} :
    SkipsSpace (record fields start finish) := by
  intro space cs h
  simp only [record, next_space h]

/-- A field that was not read before is admitted, and its written value is kept. -/
theorem Adds.field {fields : List (Field σ)} {name : String} {get : σ → Option α}
    {value : Reader α} {set : σ → α → σ} {s u : σ} {text : List Char} {a : α}
    {ms : List (String × List Char)}
    (hfind : fields.find? (fun f => f.name == name) = some (.kept name get value set))
    (hnew : get s = none) (htext : Written value text a)
    (hms : Adds (fieldMember fields) (set s a) ms u) :
    Adds (fieldMember fields) s ((name, text) :: ms) u := by
  have hmember : fieldMember fields s name = .ok ((Field.kept name get value set).read s) := by
    simp [fieldMember, hfind, Field.kept, hnew]
  refine .cons hmember (htext.via ?_) hms
  intro cs rest hread
  simp only [Field.kept, hread]

/-- A record is read back if its members lead to what it is made of at the end. -/
theorem Written.record {fields : List (Field σ)} {start s : σ} {finish : σ → Option α}
    {ms : List (String × List Char)} {a : α} (h : Adds (fieldMember fields) start ms s)
    (hfinish : finish s = some a) (depth : Nat) :
    Written (record fields start finish) (objectText depth ms) a := by
  refine .of_skipsSpace skipsSpace_record (objectText_opens depth ms) ?_
  intro rest _
  obtain ⟨cs, hcs, hmembers⟩ := members_objectText h depth rest
  have hopen : isSpace '\x7b' = false := by decide
  rw [hcs]
  simp [Json.record, next_cons hopen, hmembers, hfinish]

/-! ## Whole texts -/

/-- A written value is a whole text. -/
theorem Written.whole {read : Reader α} {text : List Char} {a : α} (h : Written read text a) :
    whole read (String.ofList text) = .ok a := by
  have hread : read (text ++ []) = .ok (a, []) := h.reads_here rfl
  rw [List.append_nil] at hread
  exact whole_eq_ok_iff.2 ⟨[], by rw [String.toList_ofList, hread], rfl⟩

end SigScan.Json
