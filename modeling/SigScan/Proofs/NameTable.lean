/-
SigScan.Proofs.NameTable — values of a table under look-up and insertion.

Looking up goes with changing all values (`find?_map`), and a table is known by what looking
up gives (`eq_of_find?`). A table from pairs gives what the pairs say (`find?_ofPairs`), and
a table is built again from its own pairs (`ofPairs_pairs`). The
values of a table after an insertion are those before it and one more if the name is new
(`perm_values_insert`), and those before it with one replaced if it is there
(`exists_values_insert`); counting entries rests on these two.
-/
import SigScan.NameTable

namespace SigScan.NameTable

variable {α β : Type}

/-! ## Look-up -/

theorem lookup_map (f : α → β) (ps : List (String × α)) (name : String) :
    (ps.map fun (n, a) => (n, f a)).lookup name = (ps.lookup name).map f := by
  induction ps with
  | nil => rfl
  | cons p ps ih =>
    obtain ⟨n, a⟩ := p
    rw [List.map_cons, List.lookup_cons, List.lookup_cons, ih]
    cases name == n <;> rfl

/-- To change the values of a table changes what is found, under the same names. -/
theorem find?_map (f : α → β) (t : NameTable α) (name : String) :
    (t.map f).find? name = (t.find? name).map f :=
  lookup_map f t.pairs name

theorem mem_of_lookup_eq_some {name : String} {a : α} {ps : List (String × α)}
    (h : ps.lookup name = some a) : (name, a) ∈ ps := by
  induction ps with
  | nil => simp at h
  | cons p ps ih =>
    obtain ⟨n, b⟩ := p
    rw [List.lookup_cons] at h
    cases hn : name == n with
    | true =>
      obtain rfl := beq_iff_eq.1 hn
      simp only [hn, Option.some.injEq] at h
      simp [h]
    | false =>
      rw [hn] at h
      exact List.mem_cons_of_mem _ (ih h)

theorem mem_pairs_of_find? {t : NameTable α} {name : String} {a : α}
    (h : t.find? name = some a) : (name, a) ∈ t.pairs :=
  mem_of_lookup_eq_some h

theorem mem_values_of_find? {t : NameTable α} {name : String} {a : α}
    (h : t.find? name = some a) : a ∈ t.values :=
  List.mem_map_of_mem (mem_pairs_of_find? h)

/-- Where names differ, a pair is looked up under its name. -/
theorem lookup_of_mem {ps : List (String × α)} (hn : (ps.map Prod.fst).Nodup)
    {name : String} {a : α} (h : (name, a) ∈ ps) : ps.lookup name = some a := by
  induction ps with
  | nil => simp at h
  | cons p ps ih =>
    obtain ⟨n, b⟩ := p
    obtain ⟨hp, hps⟩ := List.nodup_cons.1 hn
    rw [List.lookup_cons]
    rcases List.mem_cons.1 h with heq | hmem
    · obtain ⟨rfl, rfl⟩ := Prod.mk.inj heq
      simp
    · have hne : name ≠ n := by
        rintro rfl
        exact hp (List.mem_map.2 ⟨(name, a), hmem, rfl⟩)
      rw [beq_eq_false_iff_ne.2 hne]
      exact ih hps hmem

/-- No name stands in a table twice. -/
theorem nodup_names (t : NameTable α) : t.names.Nodup := by
  refine List.pairwise_map.2 (t.sorted.imp fun hlt heq => ?_)
  exact String.lt_irrefl _ (heq ▸ hlt)

/-- A pair of a table is what is found under its name. -/
theorem find?_of_mem_pairs {t : NameTable α} {name : String} {a : α}
    (h : (name, a) ∈ t.pairs) : t.find? name = some a :=
  lookup_of_mem t.nodup_names h

/-- A pair stands in a table exactly if its name is looked up to its value. -/
theorem mem_pairs_iff {t : NameTable α} {name : String} {a : α} :
    (name, a) ∈ t.pairs ↔ t.find? name = some a :=
  ⟨find?_of_mem_pairs, mem_pairs_of_find?⟩

/-- Tables in which every name has the same value are the same. -/
theorem eq_of_find? {t u : NameTable α} (h : ∀ name, t.find? name = u.find? name) : t = u := by
  have hne : ∀ p q : String × α, p.1 < q.1 → p ≠ q := by
    rintro p _ hlt rfl
    exact String.lt_irrefl _ hlt
  have hmem : ∀ p : String × α, p ∈ t.pairs ↔ p ∈ u.pairs := by
    rintro ⟨name, a⟩
    rw [mem_pairs_iff, mem_pairs_iff, h]
  have hperm :=
    (List.perm_ext_iff_of_nodup (t.sorted.imp (hne _ _)) (u.sorted.imp (hne _ _))).2 hmem
  refine NameTable.ext (hperm.eq_of_pairwise ?_ t.sorted u.sorted)
  intro p q _ _ hpq hqp
  exact absurd hqp (String.lt_asymm hpq)

/-! ## Names -/

theorem lookup_eq_none_of_not_mem {name : String} {ps : List (String × α)}
    (h : name ∉ ps.map Prod.fst) : ps.lookup name = none := by
  refine List.lookup_eq_none_iff.2 fun p hp => bne_iff_ne.2 ?_
  rintro rfl
  exact h (List.mem_map_of_mem hp)

/-- Pairs of different names that are inserted one after another are all found, in place of
what was there before them. -/
theorem find?_foldl_insert {pairs : List (String × α)} (h : (pairs.map Prod.fst).Nodup)
    (t : NameTable α) (name : String) :
    (pairs.foldl (fun t (n, a) => t.insert n a) t).find? name =
      (pairs.lookup name).or (t.find? name) := by
  induction pairs generalizing t with
  | nil => rfl
  | cons p ps ih =>
    obtain ⟨n, a⟩ := p
    obtain ⟨hnew, hps⟩ := List.nodup_cons.1 h
    rw [List.foldl_cons, ih hps, find?_insert, List.lookup_cons]
    by_cases hn : name = n
    · simp [hn, lookup_eq_none_of_not_mem hnew]
    · have hb : (name == n) = false := by simpa using hn
      simp [hn, hb]

/-- A table from pairs of different names has the values of the pairs. -/
theorem find?_ofPairs {pairs : List (String × α)} (h : (pairs.map Prod.fst).Nodup)
    (name : String) : (ofPairs pairs).find? name = pairs.lookup name := by
  rw [ofPairs, find?_foldl_insert h]
  exact Option.or_none

/-- A table is built again from its own pairs. -/
theorem ofPairs_pairs (t : NameTable α) : ofPairs t.pairs = t :=
  eq_of_find? fun name => find?_ofPairs t.nodup_names name

/-! ## Values -/

theorem map_insertPair (f : α → β) (name : String) (a : α) (ps : List (String × α)) :
    (insertPair name a ps).map (fun (n, b) => (n, f b)) =
      insertPair name (f a) (ps.map fun (n, b) => (n, f b)) := by
  induction ps with
  | nil => rfl
  | cons p ps ih =>
    obtain ⟨n, b⟩ := p
    rw [insertPair, List.map_cons, insertPair]
    split
    · rfl
    · split
      · rfl
      · rw [List.map_cons, ih]

/-- A value may be changed before it is inserted, or behind it with all the others. -/
theorem map_insert (f : α → β) (t : NameTable α) (name : String) (a : α) :
    (t.insert name a).map f = (t.map f).insert name (f a) :=
  NameTable.ext (map_insertPair f name a t.pairs)

/-- A new name adds its pair and moves no other. -/
theorem perm_insertPair {name : String} (a : α) {ps : List (String × α)}
    (h : ps.lookup name = none) : (insertPair name a ps).Perm ((name, a) :: ps) := by
  induction ps with
  | nil => exact List.Perm.refl _
  | cons p ps ih =>
    obtain ⟨n, b⟩ := p
    rw [List.lookup_cons] at h
    cases hn : name == n with
    | true => simp [hn] at h
    | false =>
      rw [hn] at h
      have hne : n ≠ name := fun heq => by simp [heq] at hn
      rw [insertPair, if_neg hne]
      split
      · exact List.Perm.refl _
      · exact ((ih h).cons _).trans (List.Perm.swap _ _ _)

theorem perm_values_insert {t : NameTable α} {name : String} (h : t.find? name = none) (a : α) :
    (t.insert name a).values.Perm (a :: t.values) :=
  (perm_insertPair a h).map Prod.snd

/-- A name that is there keeps its place, and the pairs around it stay as they are. -/
theorem exists_insertPair {name : String} {b : α} {ps : List (String × α)}
    (hs : ps.Pairwise fun p q => p.1 < q.1) (h : ps.lookup name = some b) (a : α) :
    ∃ l r, ps = l ++ (name, b) :: r ∧ insertPair name a ps = l ++ (name, a) :: r := by
  induction ps with
  | nil => simp at h
  | cons p ps ih =>
    obtain ⟨n, c⟩ := p
    obtain ⟨hp, hps⟩ := List.pairwise_cons.1 hs
    rw [List.lookup_cons] at h
    cases hn : name == n with
    | true =>
      obtain rfl := beq_iff_eq.1 hn
      simp only [hn, Option.some.injEq] at h
      exact ⟨[], ps, by simp [h], by simp [insertPair]⟩
    | false =>
      rw [hn] at h
      -- The name stands further back, so it is neither less than `n` nor `n` itself.
      have hlt : n < name := hp _ (mem_of_lookup_eq_some h)
      have hne : n ≠ name := fun heq => by simp [heq] at hn
      obtain ⟨l, r, hps', hins⟩ := ih hps h
      refine ⟨(n, c) :: l, r, by rw [hps', List.cons_append], ?_⟩
      rw [insertPair, if_neg (String.lt_asymm hlt), if_neg hne, hins, List.cons_append]

theorem exists_values_insert {t : NameTable α} {name : String} {b : α}
    (h : t.find? name = some b) (a : α) :
    ∃ l r, t.values = l ++ b :: r ∧ (t.insert name a).values = l ++ a :: r := by
  obtain ⟨l, r, hps, hins⟩ := exists_insertPair t.sorted h a
  exact ⟨l.map Prod.snd, r.map Prod.snd, by simp [values, hps], by simp [values, insert, hins]⟩

end SigScan.NameTable
