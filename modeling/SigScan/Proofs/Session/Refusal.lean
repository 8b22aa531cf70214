/-
SigScan.Proofs.Session.Refusal — calls that are refused.

A call is refused for a pattern that cannot be compiled, for a name that is taken, for one
that is not registered, or for an entry that holds no pointer. All of this is found out
before anything is done, so a refused call leaves the session as it was
(`step_eq_self_of_refused`).

A set is registered one definition after another. It comes to what registering each of
them by itself comes to, up to the first that is refused (`registerAll_of_ok`,
`registerAll_of_error`), and whatever was there before stays (`extends_registerAll`).
-/
import SigScan.Proofs.Session.History

namespace SigScan

/-- The errors of calls that are refused. -/
inductive Error.IsRefusal : Error → Prop where
  | malformed (pattern : Pattern.Malformed) : IsRefusal (.malformed pattern)
  | duplicate (name : String) : IsRefusal (.duplicate name)
  | unknown (name : String) : IsRefusal (.unknown name)
  | notAPointer (name : String) : IsRefusal (.notAPointer name)

namespace Session

/-- The error in the reply to a call that asks for a single thing. -/
def Reply.error? : Reply → Option Error
  | entry (.error e) => some e
  | address (.error e) => some e
  | primed (.error e) => some e
  | _ => none

section

variable {t : AddressTable} {name : String} {error : Error}

/-! ## Single calls -/

/-- An entry that is there has an address, or a failure of its own. -/
theorem fst_value_of_find? {e : Entry} (hf : t.registry.find? name = some e) :
    (∃ address, (t.value name).1 = .ok address) ∨
      ∃ failure, (t.value name).1 = .error (.unresolved failure) := by
  unfold AddressTable.value
  rw [hf]
  dsimp only
  split
  · exact .inl ⟨_, rfl⟩
  · exact .inr ⟨_, rfl⟩
  · exact .inr ⟨_, rfl⟩

theorem value_of_refused (h : (t.value name).1 = .error error) (hr : error.IsRefusal) :
    (t.value name).2 = t := by
  rw [snd_value]
  cases hf : t.registry.find? name with
  | none => rfl
  | some e =>
    rcases fst_value_of_find? hf with ⟨address, hok⟩ | ⟨failure, herror⟩
    · simp [hok] at h
    · obtain rfl := Except.error.inj (herror.symm.trans h)
      cases hr

theorem readPointer_of_refused (h : (t.readPointer name).1 = .error error)
    (hr : error.IsRefusal) : (t.readPointer name).2 = t := by
  unfold AddressTable.readPointer at h ⊢
  cases hf : t.registry.find? name with
  | none => rfl
  | some e =>
    rw [hf] at h
    dsimp only at h ⊢
    by_cases hd : e.deref = true
    · rw [if_pos hd] at h ⊢
      have hvalue := fst_value_of_find? hf
      cases hv : t.value name with
      | mk result t' =>
        rw [hv] at h hvalue
        dsimp only at hvalue
        rcases hvalue with ⟨address, rfl⟩ | ⟨failure, rfl⟩
        · -- The address is known, so what went wrong is the reading of the pointer.
          dsimp only at h
          cases hread : t'.memory.readUInt64 address with
          | ok pointer =>
            rw [hread] at h
            have hok : Except.ok pointer = .error error := h
            cases hok
          | error fault =>
            rw [hread] at h
            obtain rfl : Error.readFailed fault = error := Except.error.inj h
            cases hr
        · obtain rfl := Except.error.inj h
          cases hr
    · rw [if_neg hd]

theorem prime_of_error {address : UInt64} (h : (t.prime name address).1 = .error error) :
    (t.prime name address).2 = t := by
  rcases prime_cases t name address with hsame | ⟨-, hprime⟩
  · exact hsame
  · simp [hprime] at h

theorem snd_registered_of_error {result : Except Error (Entry × Registry)}
    (h : (registered t result).1.error? = some error) : (registered t result).2 = t := by
  cases result with
  | error e => rfl
  | ok p => simp [registered, Reply.error?] at h

theorem Reply.error?_address {result : Except Error UInt64}
    (h : (address result).error? = some error) : result = .error error := by
  cases result with
  | ok a => simp [Reply.error?] at h
  | error e => exact congrArg _ (Option.some.inj h)

theorem Reply.error?_primed {result : Except Error Bool}
    (h : (primed result).error? = some error) : result = .error error := by
  cases result with
  | ok b => simp [Reply.error?] at h
  | error e => exact congrArg _ (Option.some.inj h)

/-- A refused call leaves the session as it was. -/
theorem step_eq_self_of_refused {c : Call} (h : (step t c).1.error? = some error)
    (hr : error.IsRefusal) : (step t c).2 = t := by
  cases c with
  | register name pattern offset => exact snd_registered_of_error h
  | registerDefinition d => exact snd_registered_of_error h
  | value name => exact value_of_refused (Reply.error?_address h) hr
  | readPointer name => exact readPointer_of_refused (Reply.error?_address h) hr
  | prime name address => exact prime_of_error (Reply.error?_primed h)
  | registerSet set => simp [step, Reply.error?] at h
  | lookup name => rfl
  | pending => rfl
  | entries => rfl
  | resolveAll => simp [step, Reply.error?] at h
  | applyCache cache base => simp [step, Reply.error?] at h

/-! ## Definitions one by one -/

/-- The session after each of the definitions was registered by itself. -/
def oneByOne (t : AddressTable) (ds : List Definition) : AddressTable :=
  run t (ds.map .registerDefinition)

/-- Each of the definitions is accepted when it is registered behind those before it. -/
def AcceptsEach (t : AddressTable) (ds : List Definition) : Prop :=
  ∀ before d after, ds = before ++ d :: after →
    ∃ e, (step (oneByOne t before) (.registerDefinition d)).1 = .entry (.ok e)

end

section

variable {t : AddressTable} {d : Definition} {ds : List Definition} {e : Entry} {r : Registry}
  {error : Error} {entries : List Entry}

theorem step_registerDefinition_of_ok (h : t.registry.registerDefinition d = .ok (e, r)) :
    step t (.registerDefinition d) = (.entry (.ok e), { t with registry := r }) := by
  rw [step, h]
  rfl

theorem step_registerDefinition_of_error (h : t.registry.registerDefinition d = .error error) :
    step t (.registerDefinition d) = (.entry (.error error), t) := by
  rw [step, h]
  rfl

theorem oneByOne_cons (h : t.registry.registerDefinition d = .ok (e, r)) (ds : List Definition) :
    oneByOne t (d :: ds) = oneByOne { t with registry := r } ds := by
  rw [oneByOne, List.map_cons, run, List.foldl_cons, step_registerDefinition_of_ok h]
  rfl

theorem acceptsEach_nil (t : AddressTable) : AcceptsEach t [] := by
  intro before d after h
  simp at h

theorem acceptsEach_cons (h : t.registry.registerDefinition d = .ok (e, r))
    (hrest : AcceptsEach { t with registry := r } ds) : AcceptsEach t (d :: ds) := by
  intro before d' after hsplit
  rcases List.cons_eq_append_iff.1 hsplit with ⟨rfl, hcons⟩ | ⟨before', rfl, hds⟩
  · obtain ⟨rfl, -⟩ := List.cons.inj hcons
    exact ⟨e, congrArg Prod.fst (step_registerDefinition_of_ok h)⟩
  · rw [oneByOne_cons h]
    exact hrest before' d' after hds

/-- Registering definitions leaves the entries that are there as they are. -/
theorem extends_registerAll (r : Registry) (ds : List Definition) :
    r.Extends (r.registerAll ds).2 := by
  induction ds generalizing r with
  | nil => exact .refl r
  | cons d ds ih =>
    cases hr : r.registerDefinition d with
    | error error =>
      rw [Registry.registerAll, hr]
      exact .refl r
    | ok p =>
      obtain ⟨e, r'⟩ := p
      rw [registerAll_cons_of_ok hr]
      exact (extends_registerDefinition hr).trans (ih r')

/-- Of definitions that are accepted together each has the entry that was returned for it. -/
theorem entries_of_registerAll (h : (r.registerAll ds).1 = .ok entries) :
    entries.length = ds.length ∧ ∀ (i : Nat) (d : Definition), ds[i]? = some d →
      ∃ e, entries[i]? = some e ∧ (r.registerAll ds).2.find? d.name = some e := by
  induction ds generalizing r entries with
  | nil =>
    obtain rfl := Except.ok.inj h
    exact ⟨rfl, fun i d hi => by simp at hi⟩
  | cons d ds ih =>
    obtain ⟨e, r', es, hr, hes⟩ := exists_of_registerAll_cons h
    rw [registerAll_cons_of_ok hr, hes] at h
    obtain rfl := Except.ok.inj h
    obtain ⟨hlength, hfound⟩ := ih hes
    rw [registerAll_cons_of_ok hr]
    refine ⟨congrArg (· + 1) hlength, fun i d' hi => ?_⟩
    cases i with
    | zero =>
      obtain rfl := Option.some.inj hi
      exact ⟨e, rfl, extends_registerAll r' ds _ e (says_of_registerDefinition hr).1⟩
    | succ i => exact hfound i d' hi

/-- Definitions that are accepted together are accepted one by one. -/
theorem registerAll_of_ok (h : (t.registry.registerAll ds).1 = .ok entries) :
    { t with registry := (t.registry.registerAll ds).2 } = oneByOne t ds ∧ AcceptsEach t ds := by
  induction ds generalizing t entries with
  | nil => exact ⟨rfl, acceptsEach_nil t⟩
  | cons d ds ih =>
    obtain ⟨e, r, es, hr, hes⟩ := exists_of_registerAll_cons h
    obtain ⟨hstate, haccepts⟩ := ih (t := { t with registry := r }) hes
    rw [registerAll_cons_of_ok hr, oneByOne_cons hr]
    exact ⟨hstate, acceptsEach_cons hr haccepts⟩

/-- Where definitions are refused together, the first one that is refused by itself is at
fault, and those before it are registered. -/
theorem registerAll_of_error (h : (t.registry.registerAll ds).1 = .error error) :
    ∃ before d after, ds = before ++ d :: after ∧ AcceptsEach t before
      ∧ (step (oneByOne t before) (.registerDefinition d)).1 = .entry (.error error)
      ∧ { t with registry := (t.registry.registerAll ds).2 } = oneByOne t before := by
  induction ds generalizing t with
  | nil => simp [Registry.registerAll] at h
  | cons d ds ih =>
    cases hr : t.registry.registerDefinition d with
    | error error' =>
      rw [Registry.registerAll, hr] at h ⊢
      obtain rfl := Except.error.inj h
      exact ⟨[], d, ds, rfl, acceptsEach_nil t,
        congrArg Prod.fst (step_registerDefinition_of_error hr), rfl⟩
    | ok p =>
      obtain ⟨e, r⟩ := p
      rw [registerAll_cons_of_ok hr] at h ⊢
      have hrest : (r.registerAll ds).1 = .error error := by
        cases hes : (r.registerAll ds).1 with
        | ok es => simp [hes, Except.map] at h
        | error error' =>
          rw [hes] at h
          exact congrArg _ (Except.error.inj h)
      obtain ⟨before, d', after, rfl, haccepts, hrefused, hstate⟩ :=
        ih (t := { t with registry := r }) hrest
      refine ⟨d :: before, d', after, rfl, acceptsEach_cons hr haccepts, ?_, ?_⟩
      · rw [oneByOne_cons hr]
        exact hrefused
      · rw [oneByOne_cons hr]
        exact hstate

end

/-! ## Every session -/

/-- What calls leave behind that do not succeed. -/
structure RefusesCleanly (t : AddressTable) : Prop where
  /-- A refused call leaves the session as it was. -/
  unchanged : ∀ c error, (step t c).1.error? = some error → error.IsRefusal → (step t c).2 = t
  /-- A set that is accepted gives the entry of each definition, in their order. -/
  returned : ∀ set entries, (step t (.registerSet set)).1 = .registered (.ok entries) →
    (step t (.registerSet set)).2 = oneByOne t set.signatures ∧ AcceptsEach t set.signatures
      ∧ entries.length = set.signatures.length
      ∧ ∀ (i : Nat) (d : Definition), set.signatures[i]? = some d → ∃ e, entries[i]? = some e
        ∧ e.name = d.name ∧ (step t (.registerSet set)).2.registry.find? d.name = some e
  /-- A set that is refused has the error of the first definition that is refused by itself,
  and leaves those before it registered. -/
  stopped : ∀ set error, (step t (.registerSet set)).1 = .registered (.error error) →
    ∃ before d after, set.signatures = before ++ d :: after ∧ AcceptsEach t before
      ∧ (step (oneByOne t before) (.registerDefinition d)).1 = .entry (.error error)
      ∧ (step t (.registerSet set)).2 = oneByOne t before
  /-- A set adds entries and does nothing else. -/
  kept : ∀ set, t.registry.Extends (step t (.registerSet set)).2.registry
    ∧ (step t (.registerSet set)).2 =
      { t with registry := (step t (.registerSet set)).2.registry }

/-- Whatever was called before, calls that are refused leave the session as it was, and a set
is registered up to the first definition that is refused. -/
theorem refusesCleanly_run (memory : Source) (regions : List Region) (config : Scan.Config)
    (calls : List Call) : RefusesCleanly (run (.new memory regions config) calls) where
  unchanged c error h hr := step_eq_self_of_refused h hr
  returned set entries h := by
    obtain ⟨hstate, haccepts⟩ := registerAll_of_ok (Reply.registered.inj h)
    obtain ⟨hlength, hfound⟩ := entries_of_registerAll (Reply.registered.inj h)
    refine ⟨hstate, haccepts, hlength, fun i d hi => ?_⟩
    obtain ⟨e, he, hf⟩ := hfound i d hi
    -- The set is one more call, after which entries still stand under their own names.
    have hfiled := (wellFormed_run memory regions config (calls ++ [.registerSet set])).filed
    rw [run_concat] at hfiled
    exact ⟨e, he, hfiled.name_eq d.name e hf, hf⟩
  stopped set error h := registerAll_of_error (Reply.registered.inj h)
  kept set := ⟨extends_registerAll _ set.signatures, rfl⟩

/-- A set of which the second definition is refused, since its name is taken. -/
def halfwaySet : SignatureSet :=
  ⟨"1", [⟨"B", "BB", none, false⟩, ⟨"A", "CC", none, false⟩, ⟨"C", "DD", none, false⟩]⟩

/-- The first definition stays registered, the third one never is, and the entry whose name
was taken keeps its failure. -/
theorem refusesCleanly_run_halfway :
    (∃ before d after, halfwaySet.signatures = before ++ d :: after
        ∧ AcceptsEach (run bareSession missingCalls) before
        ∧ (step (oneByOne (run bareSession missingCalls) before) (.registerDefinition d)).1 =
          .entry (.error (.duplicate "A"))
        ∧ (step (run bareSession missingCalls) (.registerSet halfwaySet)).2 =
          oneByOne (run bareSession missingCalls) before)
      ∧ (step (run bareSession missingCalls) (.registerSet halfwaySet)).2.registry.all.map
          Entry.name = ["A", "B"]
      ∧ (step (run bareSession missingCalls) (.registerSet halfwaySet)).2.registry.find? "A" =
          some missingEntry := by
  have hclean : RefusesCleanly (run bareSession missingCalls) := refusesCleanly_run _ _ _ _
  have hrefused : (step (run bareSession missingCalls) (.registerSet halfwaySet)).1 =
      .registered (.error (.duplicate "A")) := by
    have hreply : ((run bareSession missingCalls).registry.registerAll halfwaySet.signatures).1 =
        .error (.duplicate "A") := by rfl
    exact congrArg Reply.registered hreply
  exact ⟨hclean.stopped _ _ hrefused, by decide, (hclean.kept halfwaySet).1 _ _ (by decide)⟩

end Session

end SigScan
