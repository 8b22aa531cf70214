/-
SigScan.Proofs.Session.WellFormed — the invariant of a session.

Entries stand under their own names with signatures that come from a compilation, a
failure is one of its own entry, and there are never more passes than entries that are
settled (`WellFormed`). Every move keeps this (`wellFormed_apply`): a pass settles at
least one entry, a new entry adds one pending entry, a priming takes one away. So it
holds after every run from a table without entries (`wellFormed_run`).
-/
import SigScan.Proofs.Registry.Listing
import SigScan.Proofs.Session.Call

namespace SigScan

/-! ## Entries -/

/-- The entry belongs to a name, and so does its failure. -/
structure Entry.BelongsTo (e : Entry) (name : String) : Prop where
  name_eq : e.name = name
  isCompiled : e.signature.IsCompiled
  failure_eq : ∀ f, e.state = .failed f → ∃ kind, f = e.failure kind

/-- An entry still belongs to its name when it is settled, unless in the failure of another. -/
theorem Entry.BelongsTo.settle {e : Entry} {name : String} (h : e.BelongsTo name)
    {state : EntryState} (hs : ∀ f, state = .failed f → ∃ kind, f = e.failure kind) :
    (e.settle state).BelongsTo name := by
  cases he : e.isSettled with
  | true => rwa [Entry.settle_of_isSettled he]
  | false =>
    rw [Entry.settle_of_not_isSettled he]
    exact ⟨h.name_eq, h.isCompiled, hs⟩

/-! ## Counting what is pending -/

namespace Registry

/-- Number of entries that are not settled. -/
theorem length_pending (r : Registry) :
    r.pending.length = r.entries.values.countP fun e => !e.isSettled := by
  rw [pending, all, List.countP_eq_length_filter]

theorem size_eq (r : Registry) : r.size = r.entries.values.length := by
  simp [size, NameTable.size, NameTable.values]

/-- To settle an entry that is there is to put the settled entry in its place. -/
theorem settle_eq_insert {r : Registry} {name : String} {e : Entry}
    (h : r.find? name = some e) (state : EntryState) :
    r.settle name state = ⟨r.entries.insert name (e.settle state)⟩ := by
  simp [settle, h]

/-- A new entry is one entry more, and pending. -/
theorem counts_insert {r : Registry} {e : Entry} (hnone : r.find? e.name = none)
    (he : e.isSettled = false) :
    Registry.size ⟨r.entries.insert e.name e⟩ = r.size + 1 ∧
      (Registry.pending ⟨r.entries.insert e.name e⟩).length = r.pending.length + 1 := by
  have hperm := NameTable.perm_values_insert hnone e
  rw [size_eq, size_eq, length_pending, length_pending]
  exact ⟨by simp [hperm.length_eq], by simp [hperm.countP_eq, he]⟩

/-- To settle an entry that is pending takes it away from those. -/
theorem counts_settle {r : Registry} {name : String} {e : Entry}
    (h : r.find? name = some e) (he : e.isSettled = false) {state : EntryState}
    (hstate : (e.settle state).isSettled = true) :
    (r.settle name state).size = r.size ∧
      (r.settle name state).pending.length + 1 = r.pending.length := by
  obtain ⟨before, after, hvalues, hvalues'⟩ :=
    NameTable.exists_values_insert h (e.settle state)
  rw [settle_eq_insert h, size_eq, size_eq, length_pending, length_pending, hvalues, hvalues']
  simp [List.countP_append, he, hstate]
  omega

end Registry

/-! ## The invariant -/

/-- What holds of a session at all times. -/
structure WellFormed (t : AddressTable) : Prop where
  belongs : ∀ name e, t.registry.find? name = some e → e.BelongsTo name
  scans_le : t.scanCount + t.registry.pending.length ≤ t.registry.size

theorem WellFormed.filed {t : AddressTable} (h : WellFormed t) : t.registry.Filed :=
  ⟨fun name e hf => (h.belongs name e hf).name_eq⟩

namespace Session

/-- A table without entries is well-formed. -/
theorem wellFormed_new (memory : Source) (regions : List Region) (config : Scan.Config) :
    WellFormed (AddressTable.new memory regions config) where
  belongs name e h := by simp [AddressTable.new, Registry.empty, Registry.find?, NameTable.empty,
    NameTable.find?] at h
  scans_le := Nat.le_refl 0

variable {t : AddressTable} {move : Move}

/-- A move leaves every entry under its name: a new one comes from a compilation, and one that a
pass settles as failed has a failure of its own. -/
theorem belongs_apply (hen : move.Enabled t)
    (h : ∀ name e, t.registry.find? name = some e → e.BelongsTo name) (name : String) (e : Entry)
    (hf : (move.apply t).registry.find? name = some e) : e.BelongsTo name := by
  rw [Move.find?_apply] at hf
  cases move with
  | insert n s deref =>
    dsimp only at hf
    split at hf
    · next hn =>
      obtain rfl := Option.some.inj hf
      exact ⟨hn.symm, hen.2, fun f hfailed => by simp at hfailed⟩
    · exact h name e hf
  | pass =>
    obtain ⟨e₀, hf₀, rfl⟩ := Option.map_eq_some_iff.1 hf
    refine (h name e₀ hf₀).settle ?_
    intro f hfailed
    obtain ⟨kind, -, hkind⟩ := Entry.failure_of_stateOf hfailed
    exact ⟨kind, hkind⟩
  | prime n address =>
    obtain ⟨e₀, hf₀, he⟩ := Option.map_eq_some_iff.1 hf
    split at he
    · exact he ▸ (h name e₀ hf₀).settle fun f hfailed => by simp at hfailed
    · exact he ▸ h name e₀ hf₀

/-- Passes and pending entries together are never more than the entries. -/
theorem scans_le_apply (hen : move.Enabled t)
    (h : t.scanCount + t.registry.pending.length ≤ t.registry.size) :
    (move.apply t).scanCount + (move.apply t).registry.pending.length ≤
      (move.apply t).registry.size := by
  cases move with
  | insert name s deref =>
    obtain ⟨hsize, hpending⟩ :=
      Registry.counts_insert (e := ⟨name, s, deref, .unresolved⟩) hen.1 rfl
    simp only [Move.apply, hsize, hpending]
    omega
  | pass =>
    -- What was pending makes up for the pass.
    have hpos : 0 < t.registry.pending.length := List.length_pos_iff.2 hen
    have hsize : (t.runPass).registry.size = t.registry.size := by
      rw [runPass_eq hen]
      simp [Registry.size, Registry.settleAll, NameTable.size, NameTable.map]
    have hcount : (t.runPass).scanCount = t.scanCount + 1 := by rw [runPass_eq hen]
    rw [Move.apply, AddressTable.pending_runPass, hsize, hcount, List.length_nil]
    omega
  | prime name address =>
    obtain ⟨e, hf, he⟩ := hen
    obtain ⟨hsize, hpending⟩ :=
      Registry.counts_settle hf he (e.isSettled_settle_resolved address)
    simp only [Move.apply, hsize]
    omega

theorem wellFormed_apply (hen : move.Enabled t) (h : WellFormed t) : WellFormed (move.apply t) where
  belongs := belongs_apply hen h.belongs
  scans_le := scans_le_apply hen h.scans_le

/-- A session is well-formed at all times. -/
theorem wellFormed_run (memory : Source) (regions : List Region) (config : Scan.Config)
    (calls : List Call) : WellFormed (run (.new memory regions config) calls) :=
  run_preserves (fun _ _ => wellFormed_apply) calls (wellFormed_new memory regions config)

end Session

theorem WellFormed.runPass {t : AddressTable} (h : WellFormed t) : WellFormed t.runPass := by
  by_cases hp : t.registry.pending = []
  · rwa [AddressTable.runPass_of_pending_nil hp]
  · have hen : Session.Move.Enabled t .pass := hp
    exact Session.wellFormed_apply hen h

theorem WellFormed.applyCache {t : AddressTable} (h : WellFormed t) (c : AddressCache)
    (base : UInt64) : WellFormed (c.apply t base).2 := by
  obtain ⟨moves, hpath, -⟩ := Session.path_primeAll base t c.addresses.pairs
  exact hpath.preserves (fun _ _ => Session.wellFormed_apply) h

end SigScan
