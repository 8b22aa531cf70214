/-
SigScan.Proofs.Relocation.Session — a session over memory at another place.

Where memory is moved, a session over it goes as the session over the memory went: entries
are registered alike, a pass settles them in the moved states (`runPass_shift`), and calls
that hand in addresses hand in the moved ones (`Call.shift`). So after every list of calls
the table is the moved table (`run_shift`).
-/
import SigScan.Proofs.Relocation.Scan
import SigScan.Proofs.Session.History

namespace SigScan

/-! ## Entries -/

/-- The state with its address, if it has one, `d` addresses further on. -/
def EntryState.shift (d : UInt64) : EntryState → EntryState
  | unresolved => unresolved
  | resolved address => resolved (address + d)
  | failed failure => failed { failure with kind := failure.kind.shift d }

/-- The entry with its state moved. -/
def Entry.shift (d : UInt64) (e : Entry) : Entry :=
  { e with state := e.state.shift d }

namespace Entry

theorem isSettled_shift (d : UInt64) (e : Entry) : (e.shift d).isSettled = e.isSettled := by
  unfold isSettled shift
  cases e.state <;> rfl

/-- Whether an entry is settled does not depend on its address, so it keeps its first state here
as there. -/
theorem settle_shift (d : UInt64) (e : Entry) (state : EntryState) :
    (e.shift d).settle (state.shift d) = (e.settle state).shift d := by
  cases hs : e.isSettled with
  | true => rw [settle_of_isSettled hs, settle_of_isSettled (by rw [isSettled_shift, hs])]
  | false =>
    rw [settle_of_not_isSettled hs, settle_of_not_isSettled (by rw [isSettled_shift, hs])]
    rfl

/-- A scan over moved memory leads an entry to the moved state. -/
theorem ownState_shift {m : Source} {d : UInt64} {regions : List Region}
    (h : ∀ r ∈ regions, r.Movable d) (config : Scan.Config) (e : Entry) :
    (e.shift d).ownState (m.shift d) config (regions.map (Region.shift d)) =
      (e.ownState m config regions).shift d := by
  simp only [ownState, shift, Signature.ownOutcome_shift h]
  cases e.signature.ownOutcome m config regions <;> rfl

end Entry

/-! ## Registries -/

namespace Registry

/-- The registry with all its entries moved. -/
def shift (d : UInt64) (r : Registry) : Registry :=
  ⟨r.entries.map (Entry.shift d)⟩

section

variable (d : UInt64) (r : Registry)

theorem find?_shift (name : String) :
    (r.shift d).find? name = (r.find? name).map (Entry.shift d) :=
  NameTable.find?_map _ _ name

theorem all_shift : (r.shift d).all = r.all.map (Entry.shift d) := by
  simp only [all, shift, NameTable.values, NameTable.map, List.map_map]
  rfl

/-- The same entries are pending in both registries. -/
theorem pending_shift : (r.shift d).pending = r.pending.map (Entry.shift d) := by
  rw [pending, pending, all_shift, List.filter_map]
  simp only [Function.comp_def, Entry.isSettled_shift]

theorem settle_shift (name : String) (state : EntryState) :
    (r.shift d).settle name (state.shift d) = (r.settle name state).shift d := by
  simp only [settle, find?_shift]
  cases r.find? name with
  | none => rfl
  | some e => simp only [Option.map_some, Entry.settle_shift, shift, NameTable.map_insert]

/-- A registration looks at no address. -/
theorem registerDefinition_shift (definition : Definition) :
    (r.shift d).registerDefinition definition =
      (r.registerDefinition definition).map fun (e, r') => (e.shift d, r'.shift d) := by
  unfold registerDefinition
  cases definition.compile with
  | error m => rfl
  | ok s =>
    simp only [register, find?_shift]
    cases hf : r.find? definition.name with
    | none =>
      simp only [Option.map_none, Except.map, shift, NameTable.map_insert]
      rfl
    | some e =>
      have hagrees : agrees (e.shift d) s definition.deref = agrees e s definition.deref := rfl
      simp only [Option.map_some, hagrees]
      split <;> rfl

/-- A list of definitions is registered as far in the moved registry as in the registry. -/
theorem registerAll_shift (definitions : List Definition) :
    ((r.shift d).registerAll definitions).2 = (r.registerAll definitions).2.shift d := by
  induction definitions generalizing r with
  | nil => rfl
  | cons definition definitions ih =>
    rw [registerAll, registerAll, registerDefinition_shift]
    cases r.registerDefinition definition with
    | error e => rfl
    | ok p => exact ih p.2

end

end Registry

/-! ## Sessions -/

namespace AddressTable

/-- The table over the memory moved by `d`, with its entries moved. -/
def shift (d : UInt64) (t : AddressTable) : AddressTable where
  registry := t.registry.shift d
  memory := t.memory.shift d
  regions := t.regions.map (Region.shift d)
  config := t.config
  scanCount := t.scanCount

/-- No region of the table reaches the top of the address space, here or moved. -/
def Movable (d : UInt64) (t : AddressTable) : Prop :=
  ∀ r ∈ t.regions, r.Movable d

/-- A new table over a moved snapshot is the moved table over the snapshot. -/
theorem new_shift {d : UInt64} {m : Snapshot} (h : m.Movable d) (config : Scan.Config) :
    (new m.source m.regions config).shift d =
      new (m.shift d).source (m.shift d).regions config := by
  rw [Snapshot.source_shift h, Snapshot.regions_shift]
  rfl

/-- A pass over moved memory settles the moved entries in the moved states. -/
theorem runPass_shift {d : UInt64} {t : AddressTable} (h : t.Movable d) :
    (t.shift d).runPass = t.runPass.shift d := by
  by_cases hp : t.registry.pending = []
  · have hp' : (t.shift d).registry.pending = [] := by
      rw [shift, Registry.pending_shift, hp]
      rfl
    rw [runPass_of_pending_nil hp, runPass_of_pending_nil hp']
  · have hp' : (t.shift d).registry.pending ≠ [] := by
      simpa [shift, Registry.pending_shift] using hp
    rw [Session.runPass_eq hp, Session.runPass_eq hp']
    simp only [shift, Registry.shift, Registry.settleAll, NameTable.map, List.map_map,
      AddressTable.mk.injEq, Registry.mk.injEq, NameTable.mk.injEq, and_true]
    refine List.map_congr_left fun p _ => ?_
    simp only [Function.comp_apply, Entry.ownState_shift h, Entry.settle_shift]

/-- To prime an entry with the moved address is to move the primed entry. -/
theorem prime_shift (d : UInt64) (t : AddressTable) (name : String) (address : UInt64) :
    ((t.shift d).prime name (address + d)).2 = (t.prime name address).2.shift d := by
  have hfind := Registry.find?_shift d t.registry name
  unfold prime
  rw [shift, hfind]
  cases hf : t.registry.find? name with
  | none => rfl
  | some e =>
    simp only [Option.map_some, Entry.isSettled_shift]
    split
    · rfl
    · exact congrArg (fun r : Registry => ({ t.shift d with registry := r } : AddressTable))
        (Registry.settle_shift d t.registry name (.resolved address))

end AddressTable

namespace Session

/-- The call with the address that it hands in, if any, `d` addresses further on. -/
def Call.shift (d : UInt64) : Call → Call
  | prime name address => prime name (address + d)
  | applyCache cache base => applyCache cache (base + d)
  | c => c

section

variable {d : UInt64} {t : AddressTable}

/-- Asking for an address leaves the moved table behind, with a pass or without. -/
theorem value_shift (h : t.Movable d) (name : String) :
    ((t.shift d).value name).2 = (t.value name).2.shift d := by
  rw [snd_value, snd_value, AddressTable.runPass_shift h, AddressTable.shift,
    Registry.find?_shift]
  cases t.registry.find? name with
  | none => rfl
  | some e =>
    simp only [Option.map_some, Entry.isSettled_shift]
    split <;> rfl

theorem readPointer_shift (h : t.Movable d) (name : String) :
    ((t.shift d).readPointer name).2 = (t.readPointer name).2.shift d := by
  rw [snd_readPointer, snd_readPointer, value_shift h, AddressTable.shift, Registry.find?_shift]
  cases t.registry.find? name with
  | none => rfl
  | some e =>
    have hderef : (e.shift d).deref = e.deref := rfl
    simp only [Option.map_some, hderef]
    split <;> rfl

/-- A cache that is applied at the moved base hands in the moved addresses. -/
theorem primeAll_shift (base : UInt64) (t : AddressTable) (pairs : List (String × UInt64)) :
    (AddressCache.primeAll (base + d) (t.shift d) pairs).2 =
      (AddressCache.primeAll base t pairs).2.shift d := by
  induction pairs generalizing t with
  | nil => rfl
  | cons p rest ih =>
    obtain ⟨name, offset⟩ := p
    have hplace : AddressCache.place (base + d) offset = AddressCache.place base offset + d := by
      unfold AddressCache.place
      grind
    rw [primeAll_cons, primeAll_cons, hplace, AddressTable.prime_shift, ih]

/-- A registration goes the same over moved memory. -/
theorem step_shift_of_definitions {c : Call} (hc : c.shift d = c)
    (hstep : ∀ t, (step t c).2 = { t with registry := (t.registry.registerAll c.definitions).2 }) :
    (step (t.shift d) (c.shift d)).2 = (step t c).2.shift d := by
  rw [hc, hstep, hstep]
  exact congrArg (fun r : Registry => ({ t.shift d with registry := r } : AddressTable))
    (Registry.registerAll_shift d t.registry c.definitions)

/-- One call over moved memory leaves the moved table behind. -/
theorem step_shift (h : t.Movable d) (c : Call) :
    (step (t.shift d) (c.shift d)).2 = (step t c).2.shift d := by
  cases c with
  | register name pattern offset =>
    exact step_shift_of_definitions rfl fun t =>
      snd_step_of_definitions t (by simp [Call.definitions])
  | registerDefinition definition =>
    exact step_shift_of_definitions rfl fun t =>
      snd_step_of_definitions t (by simp [Call.definitions])
  | registerSet set => exact step_shift_of_definitions rfl fun t => rfl
  | lookup name => rfl
  | pending => rfl
  | entries => rfl
  | value name => exact value_shift h name
  | readPointer name => exact readPointer_shift h name
  | resolveAll => exact AddressTable.runPass_shift h
  | prime name address => exact AddressTable.prime_shift d t name address
  | applyCache cache base => exact primeAll_shift base t cache.addresses.pairs

/-- The regions of a table stay as they are, so it can be moved at all times. -/
theorem movable_step (h : t.Movable d) (c : Call) : (step t c).2.Movable d := by
  obtain ⟨moves, hpath, -⟩ := exists_path_step t c
  have hregions := hpath.frame.2.2
  intro r hr
  exact h r (hregions ▸ hr)

theorem movable_run (h : t.Movable d) (calls : List Call) : (run t calls).Movable d := by
  induction calls generalizing t with
  | nil => exact h
  | cons c calls ih => exact ih (movable_step h c)

/-- After every list of calls the table over moved memory is the moved table. -/
theorem run_shift (h : t.Movable d) (calls : List Call) :
    run (t.shift d) (calls.map (Call.shift d)) = (run t calls).shift d := by
  induction calls generalizing t with
  | nil => rfl
  | cons c calls ih =>
    have hstep := ih (movable_step h c)
    rw [← step_shift h c] at hstep
    exact hstep

end

end Session

end SigScan
