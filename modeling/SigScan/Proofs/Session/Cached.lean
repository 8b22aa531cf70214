/-
SigScan.Proofs.Session.Cached — what a cache takes out of a session and puts into another.

A cache holds for a name the offset of its entry, if it has one (`find?_capture`). Applied
to a session it settles each entry that it names and that is not settled yet, and touches
nothing else (`find?_apply`, `apply_eq`); where it counts no entry, nothing has changed
(`eq_of_count_primeAll`). A registry to which entries were only added has no outcomes
(`fresh_registerAll`).
-/
import SigScan.Proofs.Session.WellFormed

namespace SigScan

/-! ## What a cache takes -/

namespace AddressCache

/-- The pairs that are kept of entries that stand under their own names. -/
theorem lookup_offsets (base : UInt64) {ps : List (String × Entry)}
    (hnames : ∀ p ∈ ps, p.2.name = p.1) (hnodup : (ps.map Prod.fst).Nodup) (name : String) :
    ((ps.map Prod.snd).filterMap fun e => (offset? base e).map (e.name, ·)).lookup name =
      (ps.lookup name).bind (offset? base) := by
  induction ps with
  | nil => rfl
  | cons p ps ih =>
    obtain ⟨n, e⟩ := p
    obtain ⟨hnew, hps⟩ := List.nodup_cons.1 hnodup
    have hn : e.name = n := hnames (n, e) List.mem_cons_self
    have ih := ih (fun q hq => hnames q (List.mem_cons_of_mem _ hq)) hps
    rw [List.map_cons, List.filterMap_cons, List.lookup_cons]
    cases hname : name == n with
    | false =>
      simp only
      rw [← ih]
      cases offset? base e with
      | none => rfl
      | some offset => simp [List.lookup_cons, hn, hname]
    | true =>
      obtain rfl := beq_iff_eq.1 hname
      rw [NameTable.lookup_eq_none_of_not_mem hnew] at ih
      cases ho : offset? base e with
      | none => simpa [ho] using ih
      | some offset => simp [hn, ho]

theorem nodup_offsets (base : UInt64) {ps : List (String × Entry)}
    (hnames : ∀ p ∈ ps, p.2.name = p.1) (hnodup : (ps.map Prod.fst).Nodup) :
    (((ps.map Prod.snd).filterMap fun e => (offset? base e).map (e.name, ·)).map
      Prod.fst).Nodup := by
  refine hnodup.sublist ?_
  induction ps with
  | nil => exact .slnil
  | cons p ps ih =>
    have hn : p.2.name = p.1 := hnames p List.mem_cons_self
    have ih := ih (fun q hq => hnames q (List.mem_cons_of_mem _ hq)) (List.nodup_cons.1 hnodup).2
    rw [List.map_cons, List.filterMap_cons, List.map_cons]
    cases offset? base p.2 with
    | none => exact ih.cons _
    | some offset => exact hn ▸ ih.cons_cons _

variable {t : AddressTable}

/-- A cache holds for a name the offset of its entry, if it has one. -/
theorem find?_capture (h : WellFormed t) (version : String) (createdAt : Instant)
    (base : UInt64) (name : String) :
    (capture version createdAt t.registry base).addresses.find? name =
      (t.registry.find? name).bind (offset? base) := by
  have hnames : ∀ p ∈ t.registry.entries.pairs, p.2.name = p.1 := fun p hp =>
    (h.belongs p.1 p.2 (NameTable.find?_of_mem_pairs hp)).name_eq
  have hnodup := t.registry.entries.nodup_names
  have hfind := NameTable.find?_ofPairs (nodup_offsets base hnames hnodup) name
  exact hfind.trans (lookup_offsets base hnames hnodup name)

/-! ## What a cache puts in -/

theorem find?_prime (t : AddressTable) (name : String) (address : UInt64) (other : String) :
    (t.prime name address).2.registry.find? other = (t.registry.find? other).map fun e =>
      if other = name then e.settle (.resolved address) else e := by
  unfold AddressTable.prime
  cases hf : t.registry.find? name with
  | none =>
    by_cases ho : other = name
    · simp [ho, hf]
    · simp [ho]
  | some e =>
    cases hs : e.isSettled with
    | true =>
      simp only [hs, if_true]
      by_cases ho : other = name
      · simp [ho, hf, Entry.settle_of_isSettled hs]
      · simp [ho]
    | false =>
      simp only [hs, Bool.false_eq_true, if_false]
      exact Session.find?_settle t.registry name other _

/-- Of the offsets of a name the first counts: it settles the entry. -/
theorem find?_primeAll (base : UInt64) (t : AddressTable) (pairs : List (String × UInt64))
    (name : String) :
    (primeAll base t pairs).2.registry.find? name = (t.registry.find? name).map fun e =>
      match pairs.lookup name with
      | some offset => e.settle (.resolved (place base offset))
      | none => e := by
  induction pairs generalizing t with
  | nil => simp [primeAll]
  | cons p rest ih =>
    obtain ⟨n, offset⟩ := p
    rw [Session.primeAll_cons, ih, find?_prime, Option.map_map, List.lookup_cons]
    congr 1
    funext e
    by_cases hn : name = n
    · subst hn
      simp only [Function.comp_apply, if_true, beq_self_eq_true]
      cases rest.lookup name with
      | none => rfl
      | some later => exact Entry.settle_of_isSettled (e.isSettled_settle_resolved _) _
    · have hb : (name == n) = false := by simpa using hn
      simp [hn, hb]

/-- Applied to a session a cache settles the entries that it names. -/
theorem find?_apply (c : AddressCache) (t : AddressTable) (base : UInt64) (name : String) :
    (c.apply t base).2.registry.find? name = (t.registry.find? name).map fun e =>
      match c.addresses.find? name with
      | some offset => e.settle (.resolved (place base offset))
      | none => e :=
  find?_primeAll base t c.addresses.pairs name

theorem prime_eq (t : AddressTable) (name : String) (address : UInt64) :
    (t.prime name address).2 = { t with registry := (t.prime name address).2.registry } := by
  unfold AddressTable.prime
  split
  · rfl
  · split <;> rfl

theorem primeAll_eq (base : UInt64) (t : AddressTable) (pairs : List (String × UInt64)) :
    (primeAll base t pairs).2 = { t with registry := (primeAll base t pairs).2.registry } := by
  induction pairs generalizing t with
  | nil => rfl
  | cons p rest ih =>
    rw [Session.primeAll_cons, ih, prime_eq]

/-- A cache changes nothing but entries, so no pass is run. -/
theorem apply_eq (c : AddressCache) (t : AddressTable) (base : UInt64) :
    (c.apply t base).2 = { t with registry := (c.apply t base).2.registry } :=
  primeAll_eq base t c.addresses.pairs

/-- Where no entry was settled the session is as it was. -/
theorem eq_of_count_primeAll (base : UInt64) {t : AddressTable} {pairs : List (String × UInt64)}
    (h : (primeAll base t pairs).1 = 0) : (primeAll base t pairs).2 = t := by
  induction pairs generalizing t with
  | nil => rfl
  | cons p rest ih =>
    obtain ⟨name, offset⟩ := p
    rw [primeAll] at h ⊢
    unfold AddressTable.prime at h ⊢
    cases hf : t.registry.find? name with
    | none =>
      simp only [hf] at h ⊢
      exact ih h
    | some e =>
      cases he : e.isSettled with
      | true =>
        simp only [hf, he, if_true] at h ⊢
        exact ih h
      | false => simp [hf, he] at h

end AddressCache

/-! ## Registries without outcomes -/

namespace Registry

/-- No entry is settled. -/
def Fresh (r : Registry) : Prop :=
  ∀ name e, r.find? name = some e → e.state = .unresolved

variable {r : Registry}

theorem fresh_empty : Registry.empty.Fresh := by
  intro name e h
  simp [empty, find?, NameTable.empty, NameTable.find?] at h

theorem fresh_registerDefinition (h : r.Fresh) {d : Definition} {e : Entry} {r' : Registry}
    (hr : r.registerDefinition d = .ok (e, r')) : r'.Fresh := by
  obtain ⟨s, -, hreg⟩ := Session.register_of_registerDefinition hr
  intro name e' hf
  cases hf₀ : r.find? d.name with
  | some e₀ =>
    rw [register_existing hf₀] at hreg
    split at hreg
    · obtain ⟨-, rfl⟩ := Prod.mk.inj (Except.ok.inj hreg)
      exact h name e' hf
    · simp at hreg
  | none =>
    simp only [register, hf₀, Except.ok.injEq, Prod.mk.injEq] at hreg
    obtain ⟨-, rfl⟩ := hreg
    rw [find?, NameTable.find?_insert] at hf
    split at hf
    · obtain rfl := Option.some.inj hf
      rfl
    · exact h name e' hf

theorem fresh_registerAll (h : r.Fresh) (definitions : List Definition) :
    (r.registerAll definitions).2.Fresh := by
  induction definitions generalizing r with
  | nil => exact h
  | cons d definitions ih =>
    rw [registerAll]
    cases hr : r.registerDefinition d with
    | error e => exact h
    | ok p => exact ih (fresh_registerDefinition h hr)

theorem Fresh.isSettled_eq_false (h : r.Fresh) {name : String} {e : Entry}
    (hf : r.find? name = some e) : e.isSettled = false := by
  rw [Entry.isSettled, h name e hf]

end Registry

end SigScan
