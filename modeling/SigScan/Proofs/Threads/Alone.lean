/-
SigScan.Proofs.Threads.Alone — a call that no other thread interrupts.

The steps of a call are the call of a session, taken apart. A thread that goes on alone
while the gate is free ends with the reply that the session gives, over the table that the
session leaves behind (`exists_run_eq_step`). The one difference in form is a pass, which
settles its entries one after another instead of all at once (`foldl_settle_pending`). So
whenever the gate is free a schedule may go on so that a call is served (`exists_serves`).
-/
import SigScan.Proofs.Registry.Listing
import SigScan.Proofs.Threads.Gate

namespace SigScan

namespace Registry

variable {r : Registry}

/-! ## Settling one after another -/

theorem settle_eq_self {name : String} (h : r.Settled name) (state : EntryState) :
    r.settle name state = r := by
  refine eq_of_find? fun other => ?_
  cases hf : r.find? other with
  | some e => exact settle_of_settled h state other e hf
  | none => rw [Session.find?_settle, hf, Option.map_none]

/-- To settle entries of different names one after another changes just these. -/
theorem find?_foldl_settle (hn : ∀ name e, r.find? name = some e → e.name = name)
    (state : Entry → EntryState) {es : List Entry} (hes : ∀ e ∈ es, r.find? e.name = some e)
    (hnodup : (es.map Entry.name).Nodup) (name : String) :
    (es.foldl (fun r e => r.settle e.name (state e)) r).find? name =
      (r.find? name).map fun e => if e ∈ es then e.settle (state e) else e := by
  induction es generalizing r with
  | nil => simp
  | cons e es ih =>
    obtain ⟨hnew, hrest⟩ := List.nodup_cons.1 hnodup
    have hother : ∀ e' ∈ es, e'.name ≠ e.name := by
      intro e' he' heq
      exact hnew (heq ▸ List.mem_map_of_mem he')
    have hn' : ∀ name' e', (r.settle e.name (state e)).find? name' = some e' →
        e'.name = name' := by
      intro name' e' hf
      rw [Session.find?_settle] at hf
      obtain ⟨e₀, hf₀, rfl⟩ := Option.map_eq_some_iff.1 hf
      split
      · rw [Entry.name_settle, hn name' e₀ hf₀]
      · exact hn name' e₀ hf₀
    have hes' : ∀ e' ∈ es, (r.settle e.name (state e)).find? e'.name = some e' := by
      intro e' he'
      rw [Session.find?_settle, hes e' (List.mem_cons_of_mem _ he')]
      simp [hother e' he']
    rw [List.foldl_cons, ih hn' hes' hrest, Session.find?_settle, Option.map_map]
    cases hf : r.find? name with
    | none => rfl
    | some e₀ =>
      have hname := hn name e₀ hf
      simp only [Option.map_some, Function.comp, Option.some.injEq]
      by_cases heq : name = e.name
      · obtain rfl : e = e₀ :=
          Option.some.inj ((hes e List.mem_cons_self).symm.trans (heq ▸ hf))
        have hout : e.settle (state e) ∉ es := by
          intro hmem
          exact hother _ hmem (Entry.name_settle e (state e))
        simp [heq, hout]
      · have hne : e₀ ≠ e := fun h => heq (h ▸ hname.symm)
        simp [heq, hne]

theorem Named.filed (hn : r.Named) : r.Filed :=
  ⟨fun name e hf => (hn.entry name e hf).name_eq⟩

/-- To settle the pending entries one after another is to settle all that is pending. -/
theorem foldl_settle_pending (hn : r.Named) (state : Entry → EntryState) :
    r.pending.foldl (fun r e => r.settle e.name (state e)) r = r.settleAll state := by
  have hpending : ∀ e ∈ r.pending, r.find? e.name = some e :=
    fun e he => hn.filed.find?_of_mem_all (List.mem_filter.1 he).1
  refine eq_of_find? fun name => ?_
  rw [find?_foldl_settle (fun name e hf => (hn.entry name e hf).name_eq) state hpending
    hn.filed.nodup_names_pending, settleAll, find?, find?, NameTable.find?_map]
  cases hf : r.entries.find? name with
  | none => rfl
  | some e =>
    cases hs : e.isSettled with
    | true => simp [pending, hs, Entry.settle_of_isSettled hs]
    | false =>
      have hmem : e ∈ r.pending :=
        List.mem_filter.2 ⟨NameTable.mem_values_of_find? hf, by simp [hs]⟩
      simp [hmem]

end Registry

/-- A report takes in the cells of all entries one after another. -/
theorem Report.foldl_note (report : Report) (es : List Entry) :
    es.foldl Report.note report =
      ⟨report.resolved ++ es.filterMap fun e =>
          match e.state with
          | .resolved address => some (e.name, address)
          | _ => none,
        report.failed ++ es.filterMap fun e =>
          match e.state with
          | .failed failure => some failure
          | _ => none⟩ := by
  induction es generalizing report with
  | nil => simp
  | cons e es ih =>
    rw [List.foldl_cons, ih]
    unfold Report.note
    cases hs : e.state <;> simp [hs]

theorem AddressTable.report_eq (t : AddressTable) :
    t.report = t.registry.all.foldl Report.note ⟨[], []⟩ := by
  rw [Report.foldl_note]
  rfl

theorem AddressTable.named_runPass {t : AddressTable} (h : t.registry.Named) :
    t.runPass.registry.Named := by
  refine ⟨fun name e hf => ?_⟩
  rw [Session.find?_runPass] at hf
  obtain ⟨e₀, hf₀, rfl⟩ := Option.map_eq_some_iff.1 hf
  have h₀ := h.entry name e₀ hf₀
  refine ⟨by rw [Entry.name_settle, h₀.name_eq], fun f hfailed => ?_⟩
  cases hs : e₀.isSettled with
  | true =>
    rw [Entry.settle_of_isSettled hs] at hfailed
    exact h₀.failure_name f hfailed
  | false =>
    rw [Entry.settle_of_not_isSettled hs] at hfailed
    obtain ⟨kind, -, rfl⟩ := Entry.failure_of_stateOf hfailed
    exact h₀.name_eq

/-- The answer for an entry that is not settled is what the pass stores. -/
theorem AddressTable.value_of_not_isSettled {t : AddressTable} {name : String} {e : Entry}
    (hf : t.registry.find? name = some e) (hs : e.isSettled = false) :
    ∃ e' answer, t.runPass.registry.find? name = some e' ∧ e'.state.answer? = some answer
      ∧ t.value name = (answer, t.runPass) := by
  have hf' := Session.find?_runPass t name
  rw [hf, Option.map_some] at hf'
  obtain ⟨o, hstate, ha⟩ := Entry.exists_outcome (isSettled_settle_ofOutcome e
    ((e.signature.ownOutcome t.memory t.config t.regions).mapError e.failure))
  refine ⟨_, _, hf', ha, ?_⟩
  have hstate' : (e.settle (e.ownState t.memory t.config t.regions)).state = .ofOutcome o := hstate
  simp only [value, hf, hs, Bool.false_eq_true, if_false, hf', Option.getD_some, hstate']
  cases o <;> rfl

namespace Threads

open Session (Reply)

/-! ## Going on alone -/

/-- The call as a call of a session. -/
def Call.toSession : Call → Session.Call
  | register d => .registerDefinition d
  | value name => .value name
  | readPointer name => .readPointer name
  | prime name address => .prime name address
  | resolveAll => .resolveAll

/-- A thread alone takes steps from one world to another. -/
inductive Alone (i : Nat) : World → World → Prop where
  | refl (w : World) : Alone i w w
  | go {w w' : World} (h : Alone i (w.go i) w') : Alone i w w'

namespace Alone

variable {i : Nat} {w w' w'' : World}

theorem trans (h : Alone i w w') (h' : Alone i w' w'') : Alone i w w'' := by
  induction h with
  | refl => exact h'
  | go _ ih => exact .go (ih h')

/-- What a thread does alone is done by a schedule in which only that thread goes on. -/
theorem exists_run_eq (h : Alone i w w') : ∃ n, w.run (List.replicate n (.go i)) = w' := by
  induction h with
  | refl w => exact ⟨0, rfl⟩
  | go _ ih =>
    obtain ⟨n, hn⟩ := ih
    exact ⟨n + 1, hn⟩

end Alone

namespace World

/-- The world with another table and the gate free, and a thread outside. -/
def outsideAt (w : World) (i : Nat) (t : AddressTable) (step : Outside) : World :=
  World.move ⟨t, none, w.threads⟩ i (.outside step)

/-- The world with another table, and a thread that holds the gate inside. -/
def insideAt (w : World) (i : Nat) (t : AddressTable) (step : Inside) : World :=
  World.move ⟨t, some i, w.threads⟩ i (.inside step)

variable {w : World} {i : Nat} {t : AddressTable}

theorem move_move (w : World) (i : Nat) (a b : Thread) : (w.move i a).move i b = w.move i b := by
  simp only [move, World.mk.injEq, true_and]
  funext j
  split <;> rfl

@[simp] theorem table_outsideAt (step : Outside) : (w.outsideAt i t step).table = t := rfl

@[simp] theorem registry_outsideAt (step : Outside) :
    (w.outsideAt i t step).registry = t.registry := rfl

@[simp] theorem move_outsideAt (step next : Outside) :
    (w.outsideAt i t step).move i (.outside next) = w.outsideAt i t next :=
  move_move _ i _ _

@[simp] theorem enter_outsideAt (step : Outside) (next : Inside) :
    (w.outsideAt i t step).enter i next = w.insideAt i t next :=
  move_move ⟨t, some i, w.threads⟩ i _ _

@[simp] theorem table_insideAt (step : Inside) : (w.insideAt i t step).table = t := rfl

@[simp] theorem registry_insideAt (step : Inside) :
    (w.insideAt i t step).registry = t.registry := rfl

@[simp] theorem move_insideAt (step next : Inside) :
    (w.insideAt i t step).move i (.inside next) = w.insideAt i t next :=
  move_move _ i _ _

@[simp] theorem move_put_insideAt (r : Registry) (step next : Inside) :
    ((w.insideAt i t step).put r).move i (.inside next) =
      w.insideAt i { t with registry := r } next :=
  move_move ⟨{ t with registry := r }, some i, w.threads⟩ i _ _

theorem go_outsideAt (step : Outside) :
    (w.outsideAt i t step).go i = (w.outsideAt i t step).goOutside i step := by
  simp [go, outsideAt]

theorem go_insideAt (step : Inside) :
    (w.insideAt i t step).go i = (w.insideAt i t step).goInside i step := by
  simp [go, insideAt]

theorem goInside_scan (errand : Errand) (pending : List Entry) :
    (w.insideAt i t (.scan errand pending)).goInside i (.scan errand pending) =
      w.insideAt i { t with scanCount := t.scanCount + 1 } (.settle errand
        (.read t.memory t.config t.regions (pending.map Entry.signature)) pending) :=
  move_move ⟨{ t with scanCount := t.scanCount + 1 }, some i, w.threads⟩ i _ _

theorem goInside_release (next : Outside) :
    (w.insideAt i t (.release next)).goInside i (.release next) = w.outsideAt i t next :=
  move_move ⟨t, none, w.threads⟩ i _ _

end World

section

variable {w w' : World} {i : Nat} {t t' : AddressTable} {name : String} {address : UInt64}

theorem Alone.outside {step : Outside}
    (h : Alone i ((w.outsideAt i t step).goOutside i step) w') :
    Alone i (w.outsideAt i t step) w' := by
  refine .go ?_
  rwa [World.go_outsideAt]

theorem Alone.inside {step : Inside}
    (h : Alone i ((w.insideAt i t step).goInside i step) w') :
    Alone i (w.insideAt i t step) w' := by
  refine .go ?_
  rwa [World.go_insideAt]

/-! ## Passes and reports -/

/-- A thread inside the gate settles the entries of its pass one after another. -/
theorem alone_settle (errand : Errand) (pass : Scan.Pass) (es : List Entry) :
    Alone i (w.insideAt i t (.settle errand pass es))
      (w.insideAt i { t with registry := es.foldl (fun r e => r.settle e.name
        (.ofOutcome (AddressTable.outcome t.memory e (pass.result e.signature)))) t.registry }
        errand.passed) := by
  induction es generalizing t with
  | nil =>
    refine .inside ?_
    simp only [World.goInside, World.move_insideAt]
    exact .refl _
  | cons e es ih =>
    refine .inside ?_
    simp only [World.goInside, World.registry_insideAt, World.table_insideAt,
      World.move_put_insideAt]
    exact ih

/-- A thread that holds the gate goes through the pass of the session. -/
theorem alone_pass (hn : t.registry.Named) (errand : Errand) :
    Alone i (w.insideAt i t (.collect errand)) (w.insideAt i t.runPass errand.passed) := by
  refine .inside ?_
  simp only [World.goInside, World.registry_insideAt, World.move_insideAt]
  cases hp : t.registry.pending with
  | nil =>
    rw [AddressTable.runPass_of_pending_nil hp]
    exact .refl _
  | cons e rest =>
    refine .inside ?_
    rw [World.goInside_scan]
    have hfold := fun state => Registry.foldl_settle_pending hn state
    rw [hp] at hfold
    unfold AddressTable.runPass
    simp only [hp, ← hfold]
    exact alone_settle errand _ (e :: rest)

/-- A thread that has listed the entries gives the report of the session. -/
theorem alone_tally (hn : t.registry.Named) {es : List Entry} (hes : ∀ e ∈ es, e ∈ t.registry.all)
    (report : Report) : Alone i (w.outsideAt i t (.tally (es.map Entry.name) report))
      (w.outsideAt i t (.finish .resolveAll (.report (es.foldl Report.note report)))) := by
  induction es generalizing report with
  | nil =>
    refine .outside ?_
    simp only [List.map_nil, World.goOutside, World.move_outsideAt]
    exact .refl _
  | cons e es ih =>
    have hf := hn.filed.find?_of_mem_all (hes e List.mem_cons_self)
    refine .outside ?_
    simp only [List.map_cons, World.goOutside, World.registry_outsideAt, hf,
      World.move_outsideAt]
    exact ih (fun e' he' => hes e' (List.mem_cons_of_mem _ he')) (report.note e)

theorem alone_survey (hn : t.registry.Named) : Alone i (w.outsideAt i t .survey)
    (w.outsideAt i t (.finish .resolveAll (.report t.report))) := by
  refine .outside ?_
  simp only [World.goOutside, World.registry_outsideAt, World.move_outsideAt]
  rw [AddressTable.report_eq]
  exact alone_tally hn (fun e he => he) _

/-! ## Cells -/

/-- A thread whose entry is settled takes its answer out of the gate. -/
theorem alone_conclude {e : Entry} {answer : Except Error UInt64}
    (hf : t.registry.find? name = some e) (ha : e.state.answer? = some answer) (use : Use) :
    Alone i (w.insideAt i t (.conclude name use))
      (w.outsideAt i t (use.answered name answer)) := by
  have hs := Entry.isSettled_of_answer? ha
  refine .inside ?_
  simp only [World.goInside, World.registry_insideAt, hf, World.move_put_insideAt,
    Entry.settle_of_isSettled hs, ha, Option.getD_some,
    Registry.settle_eq_self ⟨e, hf, hs⟩]
  refine .inside ?_
  rw [World.goInside_release]
  exact .refl _

/-- A thread that looks for the address of an entry goes on with the answer of the session. -/
theorem alone_peek (hn : t.registry.Named) {e : Entry} (hf : t.registry.find? name = some e)
    (use : Use) : Alone i (w.outsideAt i t (.peek name use))
      (w.outsideAt i (t.value name).2 (use.answered name (t.value name).1)) := by
  refine .outside ?_
  simp only [World.goOutside, World.registry_outsideAt, hf, Option.bind_some]
  cases ha : e.state.answer? with
  | some answer =>
    rw [AddressTable.value_of_answer? hf ha]
    simp only [World.move_outsideAt]
    exact .refl _
  | none =>
    simp only [World.move_outsideAt]
    refine .outside ?_
    simp only [World.goOutside, World.enter_outsideAt, Errand.enter]
    refine .inside ?_
    simp only [World.goInside, World.registry_insideAt, hf, Option.bind_some, ha,
      World.move_insideAt]
    have hs := Entry.isSettled_of_answer?_eq_none ha
    obtain ⟨e', answer, hf', ha', hvalue⟩ := AddressTable.value_of_not_isSettled hf hs
    rw [hvalue]
    exact (alone_pass hn _).trans
      (alone_conclude hf' ha' use)

/-! ## Calls -/

/-- A thread that asks for an address gets the reply of the session. -/
theorem alone_value (hn : t.registry.Named) (name : String) :
    Alone i (w.outsideAt i t (.lookUp name .value))
      (w.outsideAt i (t.value name).2 (.finish (.value name) (.address (t.value name).1))) := by
  refine .outside ?_
  simp only [World.goOutside, World.registry_outsideAt]
  cases hf : t.registry.find? name with
  | none =>
    simp only [World.move_outsideAt, AddressTable.value, hf]
    exact .refl _
  | some e =>
    simp only [World.move_outsideAt]
    exact alone_peek hn hf .value

/-- A pointer is read at the address that the cell or the pass gives, outside the gate again. -/
theorem alone_readPointer (hn : t.registry.Named) (name : String) :
    Alone i (w.outsideAt i t (.lookUp name .pointer))
      (w.outsideAt i (t.readPointer name).2
        (.finish (.readPointer name) (.address (t.readPointer name).1))) := by
  refine .outside ?_
  simp only [World.goOutside, World.registry_outsideAt, AddressTable.readPointer]
  cases hf : t.registry.find? name with
  | none =>
    simp only [World.move_outsideAt]
    exact .refl _
  | some e =>
    cases hd : e.deref with
    | false =>
      simp only [World.move_outsideAt, Use.found, hd]
      exact .refl _
    | true =>
      simp only [World.move_outsideAt, Use.found, hd, if_true]
      refine (alone_peek hn hf .pointer).trans ?_
      obtain ⟨answer, t'⟩ := t.value name
      cases answer with
      | error error => exact .refl _
      | ok address =>
        refine .outside ?_
        simp only [World.goOutside, World.table_outsideAt, World.move_outsideAt]
        exact .refl _

/-- An entry is primed inside the gate, where its cell is tested and then written. -/
theorem alone_prime (name : String) (address : UInt64) :
    Alone i (w.outsideAt i t (.lookUpToPrime name address))
      (w.outsideAt i (t.prime name address).2
        (.finish (.prime name address) (.primed (t.prime name address).1))) := by
  refine .outside ?_
  simp only [World.goOutside, World.registry_outsideAt, AddressTable.prime]
  cases hf : t.registry.find? name with
  | none =>
    simp only [World.move_outsideAt]
    exact .refl _
  | some e =>
    simp only [World.move_outsideAt]
    refine .outside ?_
    simp only [World.goOutside, World.enter_outsideAt]
    refine .inside ?_
    simp only [World.goInside, World.registry_insideAt, hf, Option.bind_some]
    cases ha : e.state.answer? with
    | some answer =>
      simp only [World.move_insideAt, Entry.isSettled_of_answer? ha, if_true]
      refine .inside ?_
      rw [World.goInside_release]
      exact .refl _
    | none =>
      simp only [World.move_insideAt, Entry.isSettled_of_answer?_eq_none ha, Bool.false_eq_true,
        if_false]
      refine .inside ?_
      simp only [World.goInside, World.registry_insideAt, World.move_put_insideAt]
      refine .inside ?_
      rw [World.goInside_release]
      exact .refl _

theorem alone_resolveAll (hn : t.registry.Named) : Alone i (w.outsideAt i t (.wait .report))
    (w.outsideAt i t.resolveAll.2 (.finish .resolveAll (.report t.resolveAll.1))) := by
  refine .outside ?_
  simp only [World.goOutside, World.enter_outsideAt, Errand.enter]
  refine (alone_pass hn .report).trans ?_
  simp only [Errand.passed]
  refine .inside ?_
  rw [World.goInside_release]
  exact alone_survey (AddressTable.named_runPass hn)

theorem alone_register (d : Definition) : Alone i (w.outsideAt i t (.register d))
    (w.outsideAt i (Session.step t (.registerDefinition d)).2
      (.finish (.register d) (Session.step t (.registerDefinition d)).1)) := by
  refine .outside ?_
  have hstep : (w.outsideAt i t (.register d)).goOutside i (.register d) =
      w.outsideAt i (Session.step t (.registerDefinition d)).2
        (.finish (.register d) (Session.step t (.registerDefinition d)).1) :=
    World.move_move ⟨(Session.step t (.registerDefinition d)).2, none, w.threads⟩ i _ _
  rw [hstep]
  exact .refl _

/-- Whatever is called, a thread that is left alone goes through the call of the session. -/
theorem alone_start (hn : t.registry.Named) (c : Call) : Alone i (w.outsideAt i t c.start)
    (w.outsideAt i (Session.step t c.toSession).2
      (.finish c (Session.step t c.toSession).1)) := by
  cases c with
  | register d => exact alone_register d
  | value name => exact alone_value hn name
  | readPointer name => exact alone_readPointer hn name
  | prime name address => exact alone_prime name address
  | resolveAll => exact alone_resolveAll hn

end

/-- A call that is made while the gate is free, and that no other thread interrupts, gives
the reply and leaves behind the table of the same call in a session. -/
theorem exists_run_eq_step {w : World} {i : Nat} (h : Ordered w) (hfree : w.gate = none)
    (hidle : w.threads i = .idle) (c : Call) :
    ∃ n, w.run (.call i c :: List.replicate n (.go i)) =
      { w with table := (Session.step w.table c.toSession).2 }.move i
        (.outside (.finish c (Session.step w.table c.toSession).1)) := by
  obtain ⟨table, gate, threads⟩ := w
  obtain rfl : gate = none := hfree
  obtain ⟨n, hn⟩ := (alone_start (w := ⟨table, none, threads⟩) (i := i) h.named c).exists_run_eq
  refine ⟨n, ?_⟩
  rw [← World.outsideAt, ← hn]
  exact congrArg (World.run · _) (World.perform_call_of_idle hidle c)

/-- An idle thread takes no step. -/
theorem run_go_of_idle {w : World} {i : Nat} (h : w.threads i = .idle) (n : Nat) :
    w.run (List.replicate n (.go i)) = w := by
  have hgo : w.perform (.go i) = w := by
    rw [World.perform, World.go, h]
  induction n with
  | zero => rfl
  | succ n ih =>
    rw [List.replicate_succ, World.run, List.foldl_cons, hgo]
    exact ih

/-- A thread that is in its call after steps of its own has been in it all the while. -/
theorem ne_idle_of_mem_trace {w : World} {i n : Nat}
    (h : (w.run (List.replicate n (.go i))).threads i ≠ .idle) :
    ∀ tr ∈ trace w (List.replicate n (.go i)), tr.before.threads i ≠ .idle := by
  induction n generalizing w with
  | zero => exact fun tr htr => by contradiction
  | succ n ih =>
    intro tr htr
    rcases List.mem_cons.1 htr with rfl | htr
    · intro hidle
      rw [run_go_of_idle hidle] at h
      exact h hidle
    · exact ih h tr htr

/-- Whatever came before, a call that is made while the gate is free can be served, with the
reply of the session. -/
theorem exists_serves {w : World} (h : Ordered w) {a : List Action} {i : Nat}
    (hfree : (w.run a).gate = none) (hidle : (w.run a).threads i = .idle) (c : Call) :
    ∃ n, Serves w (a ++ .call i c :: (List.replicate n (.go i) ++ [.go i])) i (w.run a) c
      (Session.step (w.run a).table c.toSession).1 := by
  obtain ⟨n, hn⟩ := exists_run_eq_step (ordered_run h a) hfree hidle c
  have hreply : (((w.run a).perform (.call i c)).run (List.replicate n (.go i))).threads i =
      .outside (.finish c (Session.step (w.run a).table c.toSession).1) := by
    have hrun : ((w.run a).perform (.call i c)).run (List.replicate n (.go i)) =
        (w.run a).run (.call i c :: List.replicate n (.go i)) := rfl
    rw [hrun, hn, World.threads_move_self]
  refine ⟨n, .intro rfl rfl hidle (ne_idle_of_mem_trace ?_) hreply⟩
  rw [hreply]
  simp

end Threads

end SigScan
