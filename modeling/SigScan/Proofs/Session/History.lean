/-
SigScan.Proofs.Session.History — outcomes do not depend on what else was called.

A settled entry that no call has primed has the outcome of its own signature, whatever was
registered, scanned for or primed beside it and in whatever order (`stateOf_run`): each
move either leaves an entry, primes it, or settles it in its own state. A definition that
is accepted has an entry with an equivalent signature from then on (`says_of_accepted`).
So sessions over the same memory give the entries of one definition the same outcome
(`outcome_without_history`).
-/
import SigScan.Proofs.Session.WriteOnce

namespace SigScan.Session

section

variable {t t' : AddressTable} {moves : List Move} {calls : List Call} {name : String}
  {d : Definition}

/-! ## How an entry came to be settled -/

/-- A settled entry was settled before the move, is primed by it, or comes to its state by
itself. -/
theorem Move.settled_cases {move : Move} {e : Entry}
    (hf : (move.apply t).registry.find? name = some e) (hs : e.isSettled = true) :
    t.registry.find? name = some e ∨ (∃ address, move = .prime name address)
      ∨ e.state = e.ownState t.memory t.config t.regions := by
  rw [find?_apply] at hf
  cases move with
  | insert n s deref =>
    dsimp only at hf
    split at hf
    · obtain rfl := Option.some.inj hf
      simp [Entry.isSettled] at hs
    · exact .inl hf
  | pass =>
    obtain ⟨e₀, hf₀, rfl⟩ := Option.map_eq_some_iff.1 hf
    cases h₀ : e₀.isSettled with
    | true =>
      rw [Entry.settle_of_isSettled h₀]
      exact .inl hf₀
    | false =>
      rw [Entry.ownState_settle, Entry.settle_of_not_isSettled h₀]
      exact .inr (.inr rfl)
  | prime n address =>
    obtain ⟨e₀, hf₀, he⟩ := Option.map_eq_some_iff.1 hf
    by_cases hn : name = n
    · exact .inr (.inl ⟨address, by rw [hn]⟩)
    · rw [if_neg hn] at he
      exact .inl (he ▸ hf₀)

theorem Path.frame (h : Path t moves t') :
    t'.memory = t.memory ∧ t'.config = t.config ∧ t'.regions = t.regions := by
  induction h with
  | nil => exact ⟨rfl, rfl, rfl⟩
  | @cons t _ move _ _ _ ih =>
    obtain ⟨hm, hc, hr⟩ := ih
    obtain ⟨hm', hc', hr'⟩ := Move.frame_apply t move
    exact ⟨hm.trans hm', hc.trans hc', hr.trans hr'⟩

theorem Path.settled_cases (h : Path t moves t') {e : Entry}
    (hf : t'.registry.find? name = some e) (hs : e.isSettled = true) :
    t.registry.find? name = some e ∨ (∃ address, .prime name address ∈ moves)
      ∨ e.state = e.ownState t.memory t.config t.regions := by
  induction h with
  | nil => exact .inl hf
  | @cons t _ move _ _ _ ih =>
    rcases ih hf with hmid | ⟨address, hm⟩ | hown
    · rcases Move.settled_cases hmid hs with hbefore | ⟨address, rfl⟩ | hown
      · exact .inl hbefore
      · exact .inr (.inl ⟨address, List.mem_cons_self⟩)
      · exact .inr (.inr hown)
    · exact .inr (.inl ⟨address, List.mem_cons_of_mem _ hm⟩)
    · obtain ⟨hm, hc, hr⟩ := Move.frame_apply t move
      rw [hm, hc, hr] at hown
      exact .inr (.inr hown)

/-- Some call of the list primes the entry of the name with success. -/
def Primed (t : AddressTable) (calls : List Call) (name : String) : Prop :=
  Sometime (fun t c => c.Primes t name) t calls

/-- A settled entry was there from the start, is primed by some call, or comes to its state
by itself. -/
theorem settled_cases_run {e : Entry} (hf : (run t calls).registry.find? name = some e)
    (hs : e.isSettled = true) :
    t.registry.find? name = some e ∨ Primed t calls name
      ∨ e.state = e.ownState t.memory t.config t.regions := by
  induction calls generalizing t with
  | nil => exact .inl hf
  | cons c calls ih =>
    obtain ⟨moves, hpath, hfits⟩ := exists_path_step t c
    rcases ih hf with hmid | hprimed | hown
    · rcases hpath.settled_cases hmid hs with hbefore | ⟨address, hm⟩ | hown
      · exact .inl hbefore
      · exact .inr (.inl (.head (hfits.primes name address hm)))
      · exact .inr (.inr hown)
    · exact .inr (.inl hprimed.tail)
    · obtain ⟨hm, hc, hr⟩ := hpath.frame
      rw [hm, hc, hr] at hown
      exact .inr (.inr hown)

/-! ## Accepted definitions -/

/-- The call registers the definition, and those before it in a set, without an error. -/
def Call.Accepts (t : AddressTable) (d : Definition) (c : Call) : Prop :=
  ∃ before after entries, c.definitions = before ++ d :: after
    ∧ (t.registry.registerAll (before ++ [d])).1 = .ok entries

/-- Some call of the list accepts the definition. -/
def Accepted (t : AddressTable) (calls : List Call) (d : Definition) : Prop :=
  Sometime (fun t c => c.Accepts t d) t calls

theorem registerAll_cons_of_ok {r r' : Registry} {a : Definition} {e : Entry}
    (h : r.registerDefinition a = .ok (e, r')) (as : List Definition) :
    r.registerAll (a :: as) = ((r'.registerAll as).1.map (e :: ·), (r'.registerAll as).2) := by
  rw [Registry.registerAll, h]

theorem exists_of_registerAll_cons {r : Registry} {a : Definition} {as : List Definition}
    {entries : List Entry} (h : (r.registerAll (a :: as)).1 = .ok entries) :
    ∃ e r' es, r.registerDefinition a = .ok (e, r') ∧ (r'.registerAll as).1 = .ok es := by
  cases hr : r.registerDefinition a with
  | error error => simp [Registry.registerAll, hr] at h
  | ok p =>
    obtain ⟨e, r'⟩ := p
    rw [registerAll_cons_of_ok hr] at h
    cases hes : (r'.registerAll as).1 with
    | error error => simp [hes, Except.map] at h
    | ok es => exact ⟨e, r', es, rfl, hes⟩

theorem registerAll_append {r : Registry} {as : List Definition} {entries : List Entry}
    (h : (r.registerAll as).1 = .ok entries) (bs : List Definition) :
    (r.registerAll (as ++ bs)).2 = ((r.registerAll as).2.registerAll bs).2 := by
  induction as generalizing r entries with
  | nil => rfl
  | cons a as ih =>
    obtain ⟨e, r', es, hr, hes⟩ := exists_of_registerAll_cons h
    rw [List.cons_append, registerAll_cons_of_ok hr, registerAll_cons_of_ok hr]
    exact ih hes

/-- The entry says what the definition says, in whatever spelling. -/
def Says (e : Entry) (d : Definition) : Prop :=
  ∃ s, d.compile = .ok s ∧ e.signature.isEquivalent s = true ∧ e.deref = d.deref

theorem says_of_registerDefinition {r r' : Registry} {e : Entry}
    (h : r.registerDefinition d = .ok (e, r')) : r'.find? d.name = some e ∧ Says e d := by
  obtain ⟨s, hc, hreg⟩ := register_of_registerDefinition h
  have hfind : r'.find? d.name = some e := by
    rw [Registry.find?_register hreg, if_pos rfl]
  refine ⟨hfind, s, hc, ?_⟩
  cases hf : r.find? d.name with
  | none =>
    simp only [Registry.register, hf, Except.ok.injEq, Prod.mk.injEq] at hreg
    obtain ⟨rfl, -⟩ := hreg
    exact ⟨Signature.isEquivalent_iff.2 ⟨rfl, rfl, rfl, rfl⟩, rfl⟩
  | some e' =>
    rw [Registry.register_existing hf] at hreg
    by_cases ha : Registry.agrees e' s d.deref = true
    · rw [if_pos ha] at hreg
      obtain ⟨rfl, -⟩ := Prod.mk.inj (Except.ok.inj hreg)
      simp only [Registry.agrees, Bool.and_eq_true, beq_iff_eq] at ha
      exact ⟨ha.2, ha.1⟩
    · simp [ha] at hreg

theorem says_of_registerAll {r : Registry} {before : List Definition} {entries : List Entry}
    (h : (r.registerAll (before ++ [d])).1 = .ok entries) :
    ∃ e, (r.registerAll (before ++ [d])).2.find? d.name = some e ∧ Says e d := by
  induction before generalizing r entries with
  | nil =>
    obtain ⟨e, r', _, hr, -⟩ := exists_of_registerAll_cons h
    rw [List.nil_append, registerAll_cons_of_ok hr]
    exact ⟨e, says_of_registerDefinition hr⟩
  | cons a before ih =>
    obtain ⟨e, r', es, hr, hes⟩ := exists_of_registerAll_cons h
    rw [List.cons_append, registerAll_cons_of_ok hr]
    exact ih hes

theorem Says.becomes {e e' : Entry} (h : Says e d) (hb : e.Becomes e') : Says e' d := by
  obtain ⟨s, hc, heq, hderef⟩ := h
  obtain ⟨-, hs, hd, -⟩ := hb
  exact ⟨s, hc, hs ▸ heq, hd.trans hderef⟩

theorem says_of_accepts {c : Call} (h : c.Accepts t d) :
    ∃ e, (step t c).2.registry.find? d.name = some e ∧ Says e d := by
  obtain ⟨before, after, entries, hdefs, hok⟩ := h
  obtain ⟨e, hf, hsays⟩ := says_of_registerAll hok
  -- The definitions behind this one make a path, on which the entry goes on.
  have hsplit : c.definitions = (before ++ [d]) ++ after := by simp [hdefs]
  obtain ⟨moves, hpath, -⟩ :=
    path_registerAll { t with registry := (t.registry.registerAll (before ++ [d])).2 } after
  obtain ⟨e', hf', hb⟩ := hpath.exists_becomes hf
  refine ⟨e', ?_, hsays.becomes hb⟩
  rw [snd_step_of_definitions t (by simp [hdefs]), hsplit, registerAll_append hok]
  exact hf'

/-- A definition that is accepted has an entry that says the same ever after. -/
theorem says_of_accepted (h : Accepted t calls d) {e : Entry}
    (hf : (run t calls).registry.find? d.name = some e) : Says e d := by
  obtain ⟨t', c, after, haccepts, hrun⟩ := h.exists_run_eq
  obtain ⟨e₀, hf₀, hsays⟩ := says_of_accepts haccepts
  obtain ⟨e', hf', hb⟩ := exists_becomes_run after hf₀
  obtain rfl := Option.some.inj (hf.symm.trans (hrun ▸ hf'))
  exact hsays.becomes hb

end

/-! ## Outcomes without a history -/

/-- The entry that a name has after the calls is settled, and no call has primed it. -/
structure SettledByScan (start : AddressTable) (calls : List Call) (name : String) (e : Entry) :
    Prop where
  find?_eq : (run start calls).registry.find? name = some e
  isSettled : e.isSettled = true
  not_primed : ¬ Primed start calls name

section

variable {memory : Source} {regions : List Region} {config : Scan.Config} {calls : List Call}
  {name : String} {d : Definition} {e : Entry}

theorem stateOf_run (h : SettledByScan (.new memory regions config) calls name e) :
    e.state = e.stateOf (e.signature.ownOutcome memory config regions) := by
  rcases settled_cases_run h.find?_eq h.isSettled with hnew | hprimed | hown
  · simp [find?_new] at hnew
  · exact absurd hprimed h.not_primed
  · exact hown

/-- The entry of an accepted definition has the outcome of the definition by itself. -/
theorem stateOf_accepted (hd : Accepted (.new memory regions config) calls d)
    (h : SettledByScan (.new memory regions config) calls d.name e) {s : Signature}
    (hs : d.compile = .ok s) : e.state = e.stateOf (s.ownOutcome memory config regions) := by
  obtain ⟨s', hs', heq, -⟩ := says_of_accepted hd h.find?_eq
  obtain rfl := Except.ok.inj (hs.symm.trans hs')
  have hbelongs := (wellFormed_run memory regions config calls).belongs d.name e h.find?_eq
  rw [stateOf_run h, Signature.ownOutcome_eq_of_isEquivalent memory config regions
    hbelongs.isCompiled ⟨d.pattern, d.offset, hs⟩ heq]

end

/-- A settled entry that was not primed has the outcome of its own signature. So wherever a
definition is accepted, in whatever order and beside whatever else, its entry gets the same
outcome, and the same failure if the pattern was first spelled in the same way. -/
theorem outcome_without_history (memory : Source) (regions : List Region)
    (config : Scan.Config) :
    (∀ calls name e, SettledByScan (.new memory regions config) calls name e →
      e.state = e.stateOf (e.signature.ownOutcome memory config regions))
    ∧ ∀ d calls calls' e e',
      Accepted (.new memory regions config) calls d →
      Accepted (.new memory regions config) calls' d →
      SettledByScan (.new memory regions config) calls d.name e →
      SettledByScan (.new memory regions config) calls' d.name e' →
      (∃ o, e.state = e.stateOf o ∧ e'.state = e'.stateOf o)
        ∧ (e.signature.pattern = e'.signature.pattern → e.state = e'.state) := by
  refine ⟨fun calls name e h => stateOf_run h, ?_⟩
  intro d calls calls' e e' hd hd' h h'
  obtain ⟨s, hs, -⟩ := says_of_accepted hd h.find?_eq
  have ho := stateOf_accepted hd h hs
  have ho' := stateOf_accepted hd' h' hs
  refine ⟨⟨_, ho, ho'⟩, ?_⟩
  intro hpattern
  have hname := ((wellFormed_run memory regions config calls).belongs _ _ h.find?_eq).name_eq
  have hname' := ((wellFormed_run memory regions config calls').belongs _ _ h'.find?_eq).name_eq
  have hfailure : e.failure = e'.failure := by
    funext kind
    simp [Entry.failure, hname, hname', hpattern]
  rw [ho, ho', Entry.stateOf, Entry.stateOf, hfailure]

/-- A session over memory that holds every address as its byte. -/
def bytesSession : AddressTable :=
  .new (.ofContents UInt64.toUInt8) [⟨0, 8, .code⟩] ⟨2, false⟩

def gapDefinition : Definition := ⟨"gap", "03 ?? 05", none, false⟩

def gapEntry : Entry :=
  ⟨"gap", ⟨"03 ?? 05", [⟨327683, 16711935⟩], 3, 0, .direct, 0, 3⟩, false, .resolved 3⟩

def gapAlone : List Call := [.registerDefinition gapDefinition, .resolveAll]

def gapBehindOther : List Call :=
  [.register "low" "04" none, .value "low", .registerDefinition gapDefinition, .value "gap"]

/-- A definition alone in a session and one that comes after the pass of another. -/
theorem outcome_without_history_gap :
    ∃ e e', SettledByScan bytesSession gapAlone "gap" e
      ∧ SettledByScan bytesSession gapBehindOther "gap" e'
      ∧ e.state = .resolved 3 ∧ e.state = e'.state := by
  have hd : Accepted bytesSession gapAlone gapDefinition :=
    ⟨[], _, [.resolveAll], rfl, [], [], [_], rfl, rfl⟩
  have hd' : Accepted bytesSession gapBehindOther gapDefinition :=
    ⟨[.register "low" "04" none, .value "low"], _, [.value "gap"], rfl, [], [], [_], rfl, rfl⟩
  have h : SettledByScan bytesSession gapAlone "gap" gapEntry := by
    refine ⟨by decide, rfl, ?_⟩
    intro hp
    obtain ⟨c, hc, t, hprimes⟩ := hp.exists_mem
    simp [gapAlone] at hc
    rcases hc with rfl | rfl <;> exact hprimes
  have h' : SettledByScan bytesSession gapBehindOther "gap" gapEntry := by
    refine ⟨by decide, rfl, ?_⟩
    intro hp
    obtain ⟨c, hc, t, hprimes⟩ := hp.exists_mem
    simp [gapBehindOther] at hc
    rcases hc with rfl | rfl | rfl | rfl <;> exact hprimes
  exact ⟨gapEntry, gapEntry, h, h', rfl,
    ((outcome_without_history _ _ _).2 gapDefinition _ _ _ _ hd hd' h h').2 rfl⟩

end SigScan.Session
