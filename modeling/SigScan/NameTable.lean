/-
SigScan.NameTable — values by name, in the order of names.

Names are ordered by their characters, which is also the order of their UTF-8 bytes.
A table carries the proof that its names strictly increase, so listing it needs no sorting,
and no name stands in it twice.

Main statements: looking up after an insertion (`find?_insert`), and the names after an
insertion (`mem_names_insert`).
-/

namespace SigScan

/-- Values listed by name. -/
@[ext]
structure NameTable (α : Type) where
  pairs : List (String × α)
  /-- Names strictly increase. -/
  sorted : pairs.Pairwise fun p q => p.1 < q.1
deriving Repr, DecidableEq

namespace NameTable

variable {α β : Type}

/-- Puts a pair in front of the first greater name, in place of an equal one. -/
def insertPair (name : String) (a : α) : List (String × α) → List (String × α)
  | [] => [(name, a)]
  | (n, b) :: rest =>
    if name < n then (name, a) :: (n, b) :: rest
    else if n = name then (name, a) :: rest
    else (n, b) :: insertPair name a rest

theorem mem_insertPair {name : String} {a : α} {ps : List (String × α)} {q : String × α}
    (h : q ∈ insertPair name a ps) : q = (name, a) ∨ q ∈ ps := by
  induction ps with
  | nil => exact .inl (by simpa [insertPair] using h)
  | cons p ps ih =>
    obtain ⟨n, b⟩ := p
    rw [insertPair] at h
    split at h
    · exact (List.mem_cons.1 h).imp id id
    · split at h
      · exact (List.mem_cons.1 h).imp id (List.mem_cons_of_mem _)
      · rcases List.mem_cons.1 h with h | h
        · exact .inr (by simp [h])
        · exact (ih h).imp id (List.mem_cons_of_mem _)

/-- An insertion keeps the names strictly increasing. -/
theorem pairwise_insertPair {ps : List (String × α)} (h : ps.Pairwise fun p q => p.1 < q.1)
    (name : String) (a : α) : (insertPair name a ps).Pairwise fun p q => p.1 < q.1 := by
  induction ps with
  | nil => simp [insertPair]
  | cons p ps ih =>
    obtain ⟨n, b⟩ := p
    obtain ⟨hp, hps⟩ := List.pairwise_cons.1 h
    rw [insertPair]
    split
    · next hlt =>
      refine List.pairwise_cons.2 ⟨?_, h⟩
      intro q hq
      rcases List.mem_cons.1 hq with rfl | hq
      · exact hlt
      · exact String.lt_trans hlt (hp q hq)
    · next hlt =>
      split
      · next heq =>
        subst heq
        exact List.pairwise_cons.2 ⟨hp, hps⟩
      · next hne =>
        refine List.pairwise_cons.2 ⟨?_, ih hps⟩
        intro q hq
        rcases mem_insertPair hq with rfl | hq
        · rcases String.le_total n name with hle | hle
          · exact Classical.byContradiction fun hn =>
              hne (String.le_antisymm hle (String.not_lt.1 hn))
          · exact absurd (String.le_antisymm hle (String.not_lt.1 hlt)).symm hne
        · exact hp q hq

/-- A table without names. -/
def empty : NameTable α := ⟨[], List.Pairwise.nil⟩

/-- The value of a name. -/
def find? (t : NameTable α) (name : String) : Option α :=
  t.pairs.lookup name

/-- Sets the value of a name. -/
def insert (t : NameTable α) (name : String) (a : α) : NameTable α :=
  ⟨insertPair name a t.pairs, pairwise_insertPair t.sorted name a⟩

/-- Changes every value, names unchanged. -/
def map (f : α → β) (t : NameTable α) : NameTable β :=
  ⟨t.pairs.map fun (name, a) => (name, f a), List.pairwise_map.2 t.sorted⟩

/-- The names in order. -/
def names (t : NameTable α) : List String :=
  t.pairs.map Prod.fst

/-- The values in the order of their names. -/
def values (t : NameTable α) : List α :=
  t.pairs.map Prod.snd

/-- Number of names. -/
def size (t : NameTable α) : Nat :=
  t.pairs.length

/-- The table that pairs build one after another; a later pair wins. -/
def ofPairs (pairs : List (String × α)) : NameTable α :=
  pairs.foldl (fun t (name, a) => t.insert name a) empty

/-! ## Insertion -/

theorem lookup_insertPair (name other : String) (a : α) (ps : List (String × α)) :
    (insertPair name a ps).lookup other = if other = name then some a else ps.lookup other := by
  induction ps with
  | nil =>
    by_cases h : other = name
    · simp [insertPair, h]
    · have hb : (other == name) = false := by simpa using h
      simp [insertPair, List.lookup_cons, h, hb]
  | cons p ps ih =>
    obtain ⟨n, b⟩ := p
    rw [insertPair]
    split
    · by_cases h : other = name
      · simp [h]
      · have hb : (other == name) = false := by simpa using h
        simp [List.lookup_cons, h, hb]
    · split
      · next heq =>
        subst heq
        by_cases h : other = n
        · simp [h]
        · have hb : (other == n) = false := by simpa using h
          simp [List.lookup_cons, h, hb]
      · next hne =>
        by_cases hn : other = n
        · have : other ≠ name := fun h => hne (hn ▸ h)
          simp [hn, hn ▸ this]
        · have hb : (other == n) = false := by simpa using hn
          rw [List.lookup_cons, hb, ih, List.lookup_cons, hb]

/-- Looking up after an insertion finds the new value under its name and the old values
under all others. -/
theorem find?_insert (t : NameTable α) (name other : String) (a : α) :
    (t.insert name a).find? other = if other = name then some a else t.find? other :=
  lookup_insertPair name other a t.pairs

theorem mem_names_insertPair {name other : String} {a : α} {ps : List (String × α)} :
    other ∈ (insertPair name a ps).map Prod.fst ↔ other = name ∨ other ∈ ps.map Prod.fst := by
  induction ps with
  | nil => simp [insertPair]
  | cons p ps ih =>
    obtain ⟨n, b⟩ := p
    rw [insertPair]
    split
    · simp
    · split
      · next heq => subst heq; simp
      · rw [List.map_cons, List.mem_cons, ih, List.map_cons, List.mem_cons]
        exact ⟨fun h => by rcases h with h | h | h <;> simp [h],
          fun h => by rcases h with h | h | h <;> simp [h]⟩

/-- The names after an insertion are those before it and the new one. -/
theorem mem_names_insert {t : NameTable α} {name other : String} {a : α} :
    other ∈ (t.insert name a).names ↔ other = name ∨ other ∈ t.names :=
  mem_names_insertPair

end NameTable

end SigScan
