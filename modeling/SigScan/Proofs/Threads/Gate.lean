/-
SigScan.Proofs.Threads.Gate — what holds of a shared table at all times.

A registry only grows: an entry stays under its name, and a settled one stays as it is
(`Registry.Grows`). Outside the gate nothing but new entries comes about
(`Registry.Extends`). So what a thread outside the gate relies on, an entry that is there or
an outcome that is stored, no step of another thread takes away, and what the thread inside
relies on, such as a cell that is still empty, only its own steps change
(`Outside.Sound.grows`, `Inside.Sound.extends`).

`goOutside_spec` and `goInside_spec` say once what a step does, from a lemma for each kind of
step. From them follows the invariant of all schedules, that exactly the thread inside holds
the gate and that every thread may rely on what its next step needs (`ordered_run`).
-/
import SigScan.Proofs.Threads.Schedule

namespace SigScan

/-! ## Registries that grow -/

/-- The entry has the name that it stands under, and so has its failure. -/
structure Entry.NamedBy (e : Entry) (name : String) : Prop where
  name_eq : e.name = name
  failure_name : ∀ f, e.state = .failed f → f.name = name

theorem Entry.isSettled_of_state_eq {e : Entry} {o : Except ResolveFailure UInt64}
    (h : e.state = .ofOutcome o) : e.isSettled = true := by
  unfold isSettled
  rw [h]
  cases o <;> rfl

theorem Entry.state_of_not_isSettled {e : Entry} (h : e.isSettled = false) :
    e.state = .unresolved := by
  unfold isSettled at h
  split at h
  · assumption
  · nomatch h

/-- A settled entry holds an outcome, which is its answer. -/
theorem Entry.exists_outcome {e : Entry} (h : e.isSettled = true) :
    ∃ o, e.state = .ofOutcome o ∧ e.state.answer? = some (o.mapError .unresolved) := by
  unfold isSettled at h
  cases hs : e.state with
  | unresolved => simp [hs] at h
  | resolved address => exact ⟨.ok address, rfl, rfl⟩
  | failed failure => exact ⟨.error failure, rfl, rfl⟩

theorem Entry.isSettled_of_answer?_eq_none {e : Entry} (h : e.state.answer? = none) :
    e.isSettled = false := by
  cases hs : e.isSettled with
  | false => rfl
  | true =>
    obtain ⟨o, -, ha⟩ := exists_outcome hs
    simp [h] at ha

namespace Registry

/-- Every entry, and its failure if it has one, has the name that it stands under. -/
structure Named (r : Registry) : Prop where
  entry : ∀ name e, r.find? name = some e → e.NamedBy name

/-- Entries may be added, and those that are there may be settled. -/
def Grows (r r' : Registry) : Prop :=
  ∀ name e, r.find? name = some e → ∃ e', r'.find? name = some e' ∧ e.Becomes e'

/-- The name has an entry. -/
def Has (r : Registry) (name : String) : Prop :=
  ∃ e, r.find? name = some e

/-- The name has an entry that is settled. -/
def Settled (r : Registry) (name : String) : Prop :=
  ∃ e, r.find? name = some e ∧ e.isSettled = true

/-- The name has an entry whose cell is empty. -/
def Open (r : Registry) (name : String) : Prop :=
  ∃ e, r.find? name = some e ∧ e.isSettled = false

/-- The cell of the name holds an outcome. -/
def Stores (r : Registry) (name : String) (o : Except ResolveFailure UInt64) : Prop :=
  ∃ e, r.find? name = some e ∧ e.state = .ofOutcome o

/-- Each of the names has an entry that is settled or still on a list. -/
def Covers (r : Registry) (names : String → Prop) (rest : List Entry) : Prop :=
  ∀ name, names name → ∃ e, r.find? name = some e ∧ (e.isSettled = true ∨ e ∈ rest)

section

variable {r r' r'' : Registry} {name : String} {o o' : Except ResolveFailure UInt64}
  {names : String → Prop} {rest : List Entry} {e : Entry} {state : EntryState}

theorem Extends.grows (h : r.Extends r') : r.Grows r' :=
  fun name e hf => ⟨e, h name e hf, .refl e⟩

theorem Grows.refl (r : Registry) : r.Grows r := (Extends.refl r).grows

theorem Grows.trans (h : r.Grows r') (h' : r'.Grows r'') : r.Grows r'' := by
  intro name e hf
  obtain ⟨e', hf', hb⟩ := h name e hf
  obtain ⟨e'', hf'', hb'⟩ := h' name e' hf'
  exact ⟨e'', hf'', hb.trans hb'⟩

theorem Grows.find?_of_isSettled (hg : r.Grows r') (hf : r.find? name = some e)
    (hs : e.isSettled = true) : r'.find? name = some e := by
  obtain ⟨e', hf', -, -, -, hkeep⟩ := hg name e hf
  rw [hf', hkeep hs]

theorem Has.grows (h : r.Has name) (hg : r.Grows r') : r'.Has name := by
  obtain ⟨e, hf⟩ := h
  obtain ⟨e', hf', -⟩ := hg name e hf
  exact ⟨e', hf'⟩

theorem Settled.grows (h : r.Settled name) (hg : r.Grows r') : r'.Settled name := by
  obtain ⟨e, hf, hs⟩ := h
  exact ⟨e, hg.find?_of_isSettled hf hs, hs⟩

theorem Open.extends (h : r.Open name) (hx : r.Extends r') : r'.Open name := by
  obtain ⟨e, hf, hs⟩ := h
  exact ⟨e, hx name e hf, hs⟩

theorem Stores.grows (h : r.Stores name o) (hg : r.Grows r') : r'.Stores name o := by
  obtain ⟨e, hf, hs⟩ := h
  exact ⟨e, hg.find?_of_isSettled hf (Entry.isSettled_of_state_eq hs), hs⟩

theorem Covers.extends (h : r.Covers names rest) (hx : r.Extends r') :
    r'.Covers names rest := by
  intro name hname
  obtain ⟨e, hf, he⟩ := h name hname
  exact ⟨e, hx name e hf, he⟩

/-- A cell holds one outcome. -/
theorem Stores.unique (h : r.Stores name o) (h' : r.Stores name o') : o = o' := by
  obtain ⟨e, hf, hs⟩ := h
  obtain ⟨e', hf', hs'⟩ := h'
  obtain rfl := Option.some.inj (hf.symm.trans hf')
  rw [hs] at hs'
  cases o <;> cases o' <;> simp_all [EntryState.ofOutcome]

/-! ## Cells that are settled -/

theorem grows_settle (r : Registry) (name : String) (state : EntryState) :
    r.Grows (r.settle name state) := by
  intro other e hf
  rw [Session.find?_settle, hf]
  by_cases ho : other = name
  · exact ⟨e.settle state, by simp [ho], .settle e state⟩
  · exact ⟨e, by simp [ho], .refl e⟩

theorem settle_of_settled (h : r.Settled name) (state : EntryState) :
    r.Extends (r.settle name state) := by
  obtain ⟨e, hf, hs⟩ := h
  intro other e' hf'
  rw [Session.find?_settle, hf']
  by_cases ho : other = name
  · subst ho
    obtain rfl := Option.some.inj (hf.symm.trans hf')
    simp [Entry.settle_of_isSettled hs]
  · simp [ho]

theorem named_settle (h : r.Named) (hstate : ∀ f, state = .failed f → f.name = name) :
    (r.settle name state).Named := by
  refine ⟨fun other e hf => ?_⟩
  rw [Session.find?_settle] at hf
  obtain ⟨e₀, hf₀, rfl⟩ := Option.map_eq_some_iff.1 hf
  have h₀ := h.entry other e₀ hf₀
  split
  · next ho =>
    cases hs : e₀.isSettled with
    | true => rwa [Entry.settle_of_isSettled hs]
    | false =>
      rw [Entry.settle_of_not_isSettled hs]
      exact ⟨h₀.name_eq, fun f hf => (hstate f hf).trans ho.symm⟩
  · exact h₀

theorem stores_settle (h : r.Open name) (o : Except ResolveFailure UInt64) :
    (r.settle name (.ofOutcome o)).Stores name o := by
  obtain ⟨e, hf, hs⟩ := h
  refine ⟨{ e with state := .ofOutcome o }, ?_, rfl⟩
  rw [Session.find?_settle, hf]
  simp [Entry.settle_of_not_isSettled hs]

/-- A list of all pending entries covers every name that is there. -/
theorem covers_pending (h : ∀ name, names name → r.Has name) : r.Covers names r.pending := by
  intro name hname
  obtain ⟨e, hf⟩ := h name hname
  refine ⟨e, hf, ?_⟩
  cases hs : e.isSettled with
  | true => exact .inl rfl
  | false =>
    have hmem : e ∈ r.all := NameTable.mem_values_of_find? hf
    exact .inr (List.mem_filter.2 ⟨hmem, by simp [hs]⟩)

theorem settled_of_covers_nil (h : r.Covers names []) (hname : names name) : r.Settled name := by
  obtain ⟨e, hf, he⟩ := h name hname
  exact ⟨e, hf, by simpa using he⟩

/-- To settle the first entry of a list takes it off the list. -/
theorem covers_settle (hn : r.Named) (h : r.Covers names (e :: rest))
    (o : Except ResolveFailure UInt64) :
    (r.settle e.name (.ofOutcome o)).Covers names rest := by
  intro name hname
  obtain ⟨e', hf, he⟩ := h name hname
  have hn' : e'.name = name := (hn.entry name e' hf).name_eq
  rw [Session.find?_settle, hf]
  by_cases hne : name = e.name
  · refine ⟨e'.settle (.ofOutcome o), by simp [hne], .inl ?_⟩
    exact AddressTable.isSettled_settle_ofOutcome e' o
  · refine ⟨e', by simp [hne], he.imp id fun hmem => ?_⟩
    rcases List.mem_cons.1 hmem with rfl | hmem
    · exact absurd hn'.symm hne
    · exact hmem

/-! ## Registrations -/

theorem named_registerDefinition {d : Definition} (hn : r.Named)
    (h : r.registerDefinition d = .ok (e, r')) : r'.Named := by
  obtain ⟨s, -, hreg⟩ := Session.register_of_registerDefinition h
  cases hf₀ : r.find? d.name with
  | some e₀ =>
    rw [register_existing hf₀] at hreg
    split at hreg
    · obtain ⟨-, rfl⟩ := Prod.mk.inj (Except.ok.inj hreg)
      exact hn
    · simp at hreg
  | none =>
    simp only [register, hf₀, Except.ok.injEq, Prod.mk.injEq] at hreg
    obtain ⟨-, rfl⟩ := hreg
    refine ⟨fun name e' hf => ?_⟩
    rw [find?, NameTable.find?_insert] at hf
    split at hf
    · next heq =>
      obtain rfl := Option.some.inj hf
      exact ⟨heq.symm, fun f hfailed => by simp at hfailed⟩
    · exact hn.entry name e' hf

end

end Registry

theorem AddressTable.name_of_outcome_eq_error {m : Source} {e : Entry} {result : Scan.Result}
    {f : ResolveFailure} (h : outcome m e result = .error f) : f.name = e.name := by
  unfold outcome at h
  cases result with
  | noMatch =>
    obtain rfl := Except.error.inj h
    rfl
  | ambiguous count =>
    obtain rfl := Except.error.inj h
    rfl
  | unique found =>
    simp only at h
    cases hr : resolve m found e.signature with
    | ok address =>
      rw [hr] at h
      cases h
    | error kind =>
      rw [hr] at h
      obtain rfl := Except.error.inj h
      rfl

namespace Threads

open Session (Reply)

/-! ## What a thread relies on -/

/-- The reply to a call tells the outcome of the entry of a name. -/
inductive Tells : Call → Reply → String → Except ResolveFailure UInt64 → Prop where
  | value (name : String) (o : Except ResolveFailure UInt64) :
      Tells (.value name) (.address (o.mapError .unresolved)) name o
  | pointer (name : String) (failure : ResolveFailure) :
      Tells (.readPointer name) (.address (.error (.unresolved failure))) name (.error failure)
  | primed (name : String) (address : UInt64) :
      Tells (.prime name address) (.primed (.ok true)) name (.ok address)
  | resolved {report : Report} {name : String} {address : UInt64} :
      (name, address) ∈ report.resolved → Tells .resolveAll (.report report) name (.ok address)
  | failed {report : Report} {failure : ResolveFailure} : failure ∈ report.failed →
      Tells .resolveAll (.report report) failure.name (.error failure)

/-- The names that an errand wants settled. -/
def Errand.Wants : Errand → String → Prop
  | address name _ => fun n => n = name
  | report => fun _ => False

/-- What a thread outside the gate relies on. -/
def Outside.Sound (r : Registry) : Outside → Prop
  | peek name _ => r.Has name
  | wait errand => ∀ name, errand.Wants name → r.Has name
  | waitToPrime name _ => r.Has name
  | fetch name address => r.Stores name (.ok address)
  | tally _ report => ∀ name o, Tells .resolveAll (.report report) name o → r.Stores name o
  | finish call reply => ∀ name o, Tells call reply name o → r.Stores name o
  | _ => True

/-- What the thread inside the gate relies on. -/
def Inside.Sound (r : Registry) : Inside → Prop
  | check name _ => r.Has name
  | collect errand => ∀ name, errand.Wants name → r.Has name
  | scan errand pending => r.Covers errand.Wants pending
  | settle errand _ rest => r.Covers errand.Wants rest
  | conclude name _ => r.Settled name
  | test name _ => r.Has name
  | write name _ => r.Open name
  | release next => next.Sound r

/-- What a thread relies on. -/
def Thread.Sound (r : Registry) : Thread → Prop
  | idle => True
  | outside step => step.Sound r
  | inside step => step.Sound r

/-- A name without an entry has no outcome to tell. -/
theorem not_tells_unknown {name other : String} {use : Use}
    {o : Except ResolveFailure UInt64} :
    ¬ Tells (use.call name) (.address (.error (.unknown name))) other o := by
  intro ht
  generalize hreply : Reply.address (.error (.unknown name)) = reply at ht
  cases use with
  | value =>
    simp only [Use.call] at ht
    cases ht
    cases o with
    | ok address => cases hreply
    | error failure => cases hreply
  | pointer =>
    simp only [Use.call] at ht
    cases ht
    simp at hreply

section

variable {r r' : Registry}

/-- What a thread outside relies on lasts while the registry grows. -/
theorem Outside.Sound.grows {step : Outside} (h : step.Sound r) (hg : r.Grows r') :
    step.Sound r' := by
  cases step with
  | peek name use => exact Registry.Has.grows h hg
  | wait errand => exact fun name hname => (h name hname).grows hg
  | waitToPrime name address => exact Registry.Has.grows h hg
  | fetch name address => exact Registry.Stores.grows h hg
  | tally rest report => exact fun name o ht => (h name o ht).grows hg
  | finish call reply => exact fun name o ht => (h name o ht).grows hg
  | _ => trivial

/-- What the thread inside relies on lasts while no cell is written. -/
theorem Inside.Sound.extends {step : Inside} (h : step.Sound r) (hx : r.Extends r') :
    step.Sound r' := by
  cases step with
  | check name use => exact Registry.Has.grows h hx.grows
  | collect errand => exact fun name hname => (h name hname).grows hx.grows
  | scan errand pending => exact Registry.Covers.extends h hx
  | settle errand pass rest => exact Registry.Covers.extends h hx
  | conclude name use => exact Registry.Settled.grows h hx.grows
  | test name address => exact Registry.Has.grows h hx.grows
  | write name address => exact Registry.Open.extends h hx
  | release next => exact Outside.Sound.grows h hx.grows

/-- Different outcomes are different answers. -/
theorem eq_of_mapError_eq {o o' : Except ResolveFailure UInt64}
    (h : o.mapError Error.unresolved = o'.mapError .unresolved) : o = o' := by
  cases o with
  | ok address =>
    cases o' with
    | ok address' => exact congrArg Except.ok (Except.ok.inj h)
    | error failure' => cases h
  | error failure =>
    cases o' with
    | ok address' => cases h
    | error failure' => exact congrArg Except.error (Error.unresolved.inj (Except.error.inj h))

/-- A call may go on with what a cell holds. -/
theorem sound_answered {name : String} {e : Entry} {o : Except ResolveFailure UInt64}
    (hf : r.find? name = some e) (hs : e.state = .ofOutcome o) (use : Use) :
    (use.answered name (o.mapError .unresolved)).Sound r := by
  have hstores : r.Stores name o := ⟨e, hf, hs⟩
  cases use with
  | value =>
    intro n o' ht
    generalize hreply : Reply.address (o.mapError .unresolved) = reply at ht
    cases ht with
    | value =>
      exact eq_of_mapError_eq (Reply.address.inj hreply) ▸ hstores
  | pointer =>
    cases o with
    | ok address => exact hstores
    | error failure =>
      intro n o' ht
      cases ht
      exact hstores

/-- A report goes on telling what is stored when it takes in one more cell. -/
theorem sound_note {report : Report} {rest : List String} {name : String} {e : Entry}
    (hn : r.Named) (h : (Outside.tally (name :: rest) report).Sound r)
    (hf : r.find? name = some e) : (Outside.tally rest (report.note e)).Sound r := by
  have hnamed := hn.entry name e hf
  intro n o ht
  unfold Report.note at ht
  cases hs : e.state with
  | unresolved =>
    rw [hs] at ht
    exact h n o ht
  | resolved address =>
    rw [hs] at ht
    cases ht with
    | resolved hmem =>
      rcases List.mem_append.1 hmem with hmem | hmem
      · exact h _ _ (.resolved hmem)
      · obtain ⟨rfl, rfl⟩ : n = e.name ∧ _ = address := by simpa using hmem
        exact ⟨e, hnamed.name_eq ▸ hf, hs⟩
    | failed hmem => exact h _ _ (.failed hmem)
  | failed failure =>
    rw [hs] at ht
    cases ht with
    | resolved hmem => exact h _ _ (.resolved hmem)
    | failed hmem =>
      rcases List.mem_append.1 hmem with hmem | hmem
      · exact h _ _ (.failed hmem)
      · obtain rfl := List.mem_singleton.1 hmem
        exact ⟨e, hnamed.failure_name _ hs ▸ hf, hs⟩

end

/-! ## What a step does -/

namespace World

variable {w : World} {i : Nat}

/-- What a step of a thread outside the gate does: the thread goes on outside, at most with
new entries, or enters the free gate, or waits. -/
inductive StepsOutside (w : World) (i : Nat) : World → Prop where
  | goes {thread : Thread} {r : Registry} (hinside : thread.isInside = false)
      (hextends : w.registry.Extends r) (hnamed : r.Named) (hsound : thread.Sound r) :
      StepsOutside w i ((w.put r).move i thread)
  | enters {step : Inside} (hfree : w.gate = none) (hsound : step.Sound w.registry) :
      StepsOutside w i ({ w with gate := some i }.move i (.inside step))
  | waits : StepsOutside w i w

/-- What a step of the thread inside the gate does: the thread goes on inside, where it may
settle cells, or leaves the gate. -/
inductive StepsInside (w : World) (i : Nat) : World → Prop where
  | goes {step : Inside} {table : AddressTable} (hgrows : w.registry.Grows table.registry)
      (hnamed : table.registry.Named) (hsound : step.Sound table.registry) :
      StepsInside w i ({ w with table := table }.move i (.inside step))
  | leaves {next : Outside} (hsound : next.Sound w.registry) :
      StepsInside w i ({ w with gate := none }.move i (.outside next))
  | waits : StepsInside w i w

theorem StepsOutside.moves {thread : Thread} (hn : w.registry.Named)
    (hinside : thread.isInside = false) (hsound : thread.Sound w.registry) :
    StepsOutside w i (w.move i thread) :=
  .goes hinside (.refl w.registry) hn hsound

theorem StepsOutside.enter {step : Inside} (hsound : step.Sound w.registry) :
    StepsOutside w i (w.enter i step) := by
  unfold World.enter
  split
  · next hfree => exact .enters hfree hsound
  · exact .waits

theorem StepsInside.moves {step : Inside} (hn : w.registry.Named)
    (hsound : step.Sound w.registry) : StepsInside w i (w.move i (.inside step)) :=
  .goes (.refl w.registry) hn hsound

/-! ### Outside the gate -/

/-- A registration adds an entry at most, and its reply tells no outcome. -/
theorem goOutside_register (hn : w.registry.Named) (d : Definition) :
    StepsOutside w i (w.goOutside i (.register d)) := by
  cases hr : w.registry.registerDefinition d with
  | error error =>
    simp only [goOutside, hr, Session.registered]
    exact .moves hn rfl (by rintro n o ⟨⟩)
  | ok p =>
    obtain ⟨e, r⟩ := p
    simp only [goOutside, hr, Session.registered]
    exact .goes rfl (Session.extends_registerDefinition hr)
      (Registry.named_registerDefinition hn hr) (by rintro n o ⟨⟩)

/-- A name that is looked up has an entry from then on, or is unknown. -/
theorem goOutside_lookUp (hn : w.registry.Named) (name : String) (use : Use) :
    StepsOutside w i (w.goOutside i (.lookUp name use)) := by
  cases hf : w.registry.find? name with
  | none =>
    simp only [goOutside, hf]
    exact .moves hn rfl fun n o ht => absurd ht not_tells_unknown
  | some e =>
    simp only [goOutside, hf]
    refine .moves hn rfl ?_
    cases use with
    | value => exact ⟨e, hf⟩
    | pointer =>
      simp only [Use.found]
      split
      · exact ⟨e, hf⟩
      · rintro n o ⟨⟩

/-- The first look at a cell finds the outcome that is stored, or sends the thread to the gate. -/
theorem goOutside_peek (hn : w.registry.Named) {name : String} (h : w.registry.Has name)
    (use : Use) : StepsOutside w i (w.goOutside i (.peek name use)) := by
  obtain ⟨e, hf⟩ := h
  cases ha : e.state.answer? with
  | none =>
    simp only [goOutside, hf, Option.bind_some, ha]
    exact .moves hn rfl fun n hn => hn ▸ ⟨e, hf⟩
  | some answer =>
    obtain ⟨o, hs, ha'⟩ := Entry.exists_outcome (Entry.isSettled_of_answer? ha)
    obtain rfl := Option.some.inj (ha.symm.trans ha')
    simp only [goOutside, hf, Option.bind_some, ha]
    exact .moves hn rfl (sound_answered hf hs use)

/-- A pointer that is read tells nothing of its entry. -/
theorem goOutside_fetch (hn : w.registry.Named) (name : String) (address : UInt64) :
    StepsOutside w i (w.goOutside i (.fetch name address)) := by
  refine .moves hn rfl fun n o ht => ?_
  cases hp : w.table.memory.readUInt64 address with
  | ok pointer => rw [hp] at ht; cases ht
  | error fault => rw [hp] at ht; cases ht

theorem goOutside_lookUpToPrime (hn : w.registry.Named) (name : String) (address : UInt64) :
    StepsOutside w i (w.goOutside i (.lookUpToPrime name address)) := by
  cases hf : w.registry.find? name with
  | none =>
    simp only [goOutside, hf]
    exact .moves hn rfl (by rintro n o ⟨⟩)
  | some e =>
    simp only [goOutside, hf]
    exact .moves hn rfl ⟨e, hf⟩

/-- A report takes in the cell of one more name, if it has an entry, or is complete. -/
theorem goOutside_tally (hn : w.registry.Named) {rest : List String} {report : Report}
    (h : (Outside.tally rest report).Sound w.registry) :
    StepsOutside w i (w.goOutside i (.tally rest report)) := by
  cases rest with
  | nil => exact .moves hn rfl h
  | cons name rest =>
    cases hf : w.registry.find? name with
    | none =>
      simp only [goOutside, hf]
      exact .moves hn rfl h
    | some e =>
      simp only [goOutside, hf]
      exact .moves hn rfl (sound_note hn h hf)

/-- A step outside the gate that finds what it relies on is one of these. -/
theorem goOutside_spec {step : Outside} (hn : w.registry.Named)
    (h : step.Sound w.registry) : StepsOutside w i (w.goOutside i step) := by
  cases step with
  | register d => exact goOutside_register hn d
  | lookUp name use => exact goOutside_lookUp hn name use
  | peek name use => exact goOutside_peek hn h use
  | wait errand =>
    refine .enter ?_
    cases errand with
    | address name use => exact h name rfl
    | report => exact fun name hname => False.elim hname
  | fetch name address => exact goOutside_fetch hn name address
  | lookUpToPrime name address => exact goOutside_lookUpToPrime hn name address
  | waitToPrime name address => exact .enter h
  | survey =>
    refine .moves hn rfl fun n o ht => ?_
    cases ht with
    | resolved hmem => simp at hmem
    | failed hmem => simp at hmem
  | tally rest report => exact goOutside_tally hn h
  | finish call reply => exact .moves hn rfl trivial

/-! ### Inside the gate -/

theorem sound_passed {errand : Errand} {r : Registry} (h : r.Covers errand.Wants []) :
    errand.passed.Sound r := by
  cases errand with
  | address name use => exact Registry.settled_of_covers_nil h rfl
  | report => trivial

/-- The second look at a cell finds it settled, or leads to a pass. -/
theorem goInside_check (hn : w.registry.Named) {name : String} (h : w.registry.Has name)
    (use : Use) : StepsInside w i (w.goInside i (.check name use)) := by
  obtain ⟨e, hf⟩ := h
  cases ha : e.state.answer? with
  | none =>
    simp only [goInside, hf, Option.bind_some, ha]
    exact .moves hn fun n hn => hn ▸ ⟨e, hf⟩
  | some answer =>
    simp only [goInside, hf, Option.bind_some, ha]
    exact .moves hn ⟨e, hf, Entry.isSettled_of_answer? ha⟩

/-- What is pending is listed, and every name that is wanted is settled or on the list. -/
theorem goInside_collect (hn : w.registry.Named) {errand : Errand}
    (h : ∀ name, errand.Wants name → w.registry.Has name) :
    StepsInside w i (w.goInside i (.collect errand)) := by
  have hcovers := Registry.covers_pending h
  cases hp : w.registry.pending with
  | nil =>
    simp only [goInside, hp]
    exact .moves hn (sound_passed (hp ▸ hcovers))
  | cons e rest =>
    simp only [goInside, hp]
    exact .moves hn (hp ▸ hcovers)

/-- A pass settles the first entry of its list, under the name of that entry. -/
theorem goInside_settle (hn : w.registry.Named) {errand : Errand} {rest : List Entry}
    (h : w.registry.Covers errand.Wants rest) (pass : Scan.Pass) :
    StepsInside w i (w.goInside i (.settle errand pass rest)) := by
  cases rest with
  | nil => exact .moves hn (sound_passed h)
  | cons e rest =>
    refine .goes (Registry.grows_settle _ _ _) (Registry.named_settle hn ?_)
      (Registry.covers_settle hn h _)
    intro f hf
    cases ho : AddressTable.outcome w.table.memory e (pass.result e.signature) with
    | ok address => simp [ho, EntryState.ofOutcome] at hf
    | error f' =>
      rw [ho] at hf
      obtain rfl := EntryState.failed.inj hf
      exact AddressTable.name_of_outcome_eq_error ho

/-- Where a call takes what the cell holds, nothing is written: the cell holds an outcome. -/
theorem goInside_conclude (hn : w.registry.Named) {name : String} (h : w.registry.Settled name)
    (use : Use) : StepsInside w i (w.goInside i (.conclude name use)) := by
  obtain ⟨e, hf, hs⟩ := h
  obtain ⟨o, hstate, ha⟩ := Entry.exists_outcome hs
  have hsame := Registry.settle_of_settled ⟨e, hf, hs⟩ (.failed (e.failure .noMatch))
  simp only [goInside, hf, Entry.settle_of_isSettled hs, ha, Option.getD_some]
  refine .goes hsame.grows (Registry.named_settle hn ?_) ?_
  · intro f hfailed
    obtain rfl := EntryState.failed.inj hfailed
    exact (hn.entry name e hf).name_eq
  · exact sound_answered (hsame name e hf) hstate use

theorem goInside_test (hn : w.registry.Named) {name : String} (h : w.registry.Has name)
    (address : UInt64) : StepsInside w i (w.goInside i (.test name address)) := by
  obtain ⟨e, hf⟩ := h
  cases ha : e.state.answer? with
  | none =>
    simp only [goInside, hf, Option.bind_some, ha]
    exact .moves hn ⟨e, hf, Entry.isSettled_of_answer?_eq_none ha⟩
  | some answer =>
    simp only [goInside, hf, Option.bind_some, ha]
    refine .moves hn ?_
    rintro n o ⟨⟩

/-- A priming stores the address that its reply tells. -/
theorem goInside_write (hn : w.registry.Named) {name : String} (h : w.registry.Open name)
    (address : UInt64) : StepsInside w i (w.goInside i (.write name address)) := by
  refine .goes (Registry.grows_settle _ _ _) (Registry.named_settle hn ?_) ?_
  · rintro f ⟨⟩
  · intro n o ht
    cases ht with
    | primed => exact Registry.stores_settle h (.ok address)

/-- A step inside the gate that finds what it relies on is one of these. -/
theorem goInside_spec {step : Inside} (hn : w.registry.Named) (h : step.Sound w.registry) :
    StepsInside w i (w.goInside i step) := by
  cases step with
  | check name use => exact goInside_check hn h use
  | collect errand => exact goInside_collect hn h
  | scan errand pending => exact .goes (.refl w.registry) hn h
  | settle errand pass rest => exact goInside_settle hn h pass
  | conclude name use => exact goInside_conclude hn h use
  | test name address => exact goInside_test hn h address
  | write name address => exact goInside_write hn h address
  | release next => exact .leaves h

end World

/-! ## The invariant -/

/-- What holds of a world at all times. -/
structure Ordered (w : World) : Prop where
  named : w.registry.Named
  /-- Exactly the thread inside holds the gate. -/
  gate : ∀ i, (w.threads i).isInside = true ↔ w.gate = some i
  sound : ∀ i, (w.threads i).Sound w.registry

section

variable {w : World} {i : Nat}

theorem ordered_start (memory : Source) (regions : List Region) (config : Scan.Config) :
    Ordered (.start memory regions config) where
  named := by
    refine ⟨fun name e h => ?_⟩
    rw [World.start, World.registry, Session.find?_new] at h
    simp at h
  gate i := by simp [World.start, Thread.isInside]
  sound i := trivial

/-- What a thread relies on lasts while another thread moves: the registry grows, and where
the thread is inside it is not written to. -/
theorem Thread.Sound.others {thread : Thread} {r r' : Registry} (h : thread.Sound r)
    (hg : r.Grows r') (hx : thread.isInside = true → r.Extends r') : thread.Sound r' := by
  cases thread with
  | idle => trivial
  | outside step => exact Outside.Sound.grows h hg
  | inside step => exact Inside.Sound.extends h (hx rfl)

theorem ordered_move {thread : Thread} {table : AddressTable} {gate : Option Nat}
    (hnamed : table.registry.Named) (hsound : thread.Sound table.registry)
    (hothers : ∀ j, j ≠ i → (w.threads j).Sound table.registry)
    (hinside : thread.isInside = true ↔ gate = some i)
    (hgate : ∀ j, j ≠ i → ((w.threads j).isInside = true ↔ gate = some j)) :
    Ordered (World.move ⟨table, gate, w.threads⟩ i thread) := by
  refine ⟨hnamed, fun j => ?_, fun j => ?_⟩
  · by_cases hj : j = i
    · subst hj
      simpa using hinside
    · simpa [hj] using hgate j hj
  · by_cases hj : j = i
    · subst hj
      rw [World.threads_move_self]
      exact hsound
    · rw [World.threads_move_of_ne _ _ hj]
      exact hothers j hj

theorem ordered_of_stepsOutside {w' : World} (h : Ordered w) (ho : (w.threads i).isInside = false)
    (hs : w.StepsOutside i w') : Ordered w' := by
  have hgate := h.gate i
  rw [ho] at hgate
  cases hs with
  | waits => exact h
  | goes hinside hextends hnamed hsound =>
    refine ordered_move hnamed hsound ?_ (hinside ▸ hgate) fun j _ => h.gate j
    intro j _
    exact (h.sound j).others hextends.grows fun _ => hextends
  | enters hfree hsound =>
    refine ordered_move h.named hsound (fun j _ => h.sound j) (by simp [Thread.isInside]) ?_
    intro j hj
    have hout := h.gate j
    rw [hfree] at hout
    have hij : i ≠ j := fun heq => hj heq.symm
    simpa [hij] using hout

theorem ordered_of_stepsInside {w' : World} (h : Ordered w) (hi : (w.threads i).isInside = true)
    (hs : w.StepsInside i w') : Ordered w' := by
  have hgate := (h.gate i).1 hi
  -- No other thread is inside.
  have hothers : ∀ j, j ≠ i → (w.threads j).isInside ≠ true := by
    intro j hj hinside
    have hgate' := (h.gate j).1 hinside
    exact hj (Option.some.inj (hgate'.symm.trans hgate))
  cases hs with
  | waits => exact h
  | goes hgrows hnamed hsound =>
    refine ordered_move hnamed hsound ?_ (by simp [Thread.isInside, hgate]) fun j _ => h.gate j
    intro j hj
    exact (h.sound j).others hgrows fun hinside => absurd hinside (hothers j hj)
  | leaves hsound =>
    refine ordered_move h.named hsound (fun j _ => h.sound j) (by simp [Thread.isInside]) ?_
    intro j hj
    simpa using hothers j hj

theorem ordered_go (h : Ordered w) (i : Nat) : Ordered (w.go i) := by
  have hsound := h.sound i
  unfold World.go
  split
  · exact h
  · next step hstep =>
    rw [hstep] at hsound
    exact ordered_of_stepsOutside h (by rw [hstep]; rfl) (World.goOutside_spec h.named hsound)
  · next step hstep =>
    rw [hstep] at hsound
    exact ordered_of_stepsInside h (by rw [hstep]; rfl) (World.goInside_spec h.named hsound)

theorem ordered_perform (h : Ordered w) (action : Action) : Ordered (w.perform action) := by
  cases action with
  | go i => exact ordered_go h i
  | memory m => exact ⟨h.named, h.gate, h.sound⟩
  | call i c =>
    have hgate := h.gate i
    simp only [World.perform]
    split
    · next hidle =>
      rw [hidle] at hgate
      have hstart : c.start.Sound w.registry := by
        cases c with
        | resolveAll => exact fun name hname => False.elim hname
        | _ => trivial
      exact ordered_move h.named hstart (fun j _ => h.sound j) hgate fun j _ => h.gate j
    · exact h

/-- Every schedule keeps the order. -/
theorem ordered_run (h : Ordered w) (schedule : List Action) : Ordered (w.run schedule) := by
  induction schedule generalizing w with
  | nil => exact h
  | cons action schedule ih => exact ih (ordered_perform h action)

end

end Threads

end SigScan
