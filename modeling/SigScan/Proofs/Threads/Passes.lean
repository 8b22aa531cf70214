/-
SigScan.Proofs.Threads.Passes — passes and reports under every schedule.

Along a schedule the registry grows, and while a thread is inside the gate no other thread
writes to it (`grows_run`, `extends_perform`). From these follow two results about passes. A
report mentions every name that had an entry when the call for it was made
(`mentions_of_serves`): its own pass, or the passes before it, settled all of them. And a pass
leaves nothing pending, so without new entries there is no second one
(`scanCount_run_le_one`).
-/
import SigScan.Proofs.Threads.Gate

namespace SigScan.Threads

open Session (Reply)

/-! ## Growth along a schedule -/

section

variable {w : World} {i : Nat}

theorem World.StepsOutside.extends {w' : World} (h : w.StepsOutside i w') :
    w.registry.Extends w'.registry := by
  cases h with
  | goes _ hextends _ _ => exact hextends
  | enters => exact .refl w.registry
  | waits => exact .refl w.registry

theorem World.StepsInside.grows {w' : World} (h : w.StepsInside i w') :
    w.registry.Grows w'.registry := by
  cases h with
  | goes hgrows _ _ => exact hgrows
  | leaves => exact .refl w.registry
  | waits => exact .refl w.registry

/-- A thread outside the gate writes nothing. -/
theorem extends_go (h : Ordered w) (hi : (w.threads i).isInside = false) :
    w.registry.Extends (w.go i).registry := by
  have hsound := h.sound i
  unfold World.go
  split
  · exact .refl w.registry
  · next step hstep =>
    rw [hstep] at hsound
    exact (World.goOutside_spec h.named hsound).extends
  · next step hstep =>
    rw [hstep] at hi
    nomatch hi

theorem grows_go (h : Ordered w) (i : Nat) : w.registry.Grows (w.go i).registry := by
  cases hi : (w.threads i).isInside with
  | false => exact (extends_go h hi).grows
  | true =>
    have hsound := h.sound i
    unfold World.go
    cases hstep : w.threads i with
    | idle => exact .refl w.registry
    | outside step =>
      rw [hstep] at hi
      nomatch hi
    | inside step =>
      rw [hstep] at hsound
      exact (World.goInside_spec h.named hsound).grows

theorem registry_perform_call (w : World) (i : Nat) (c : Call) :
    (w.perform (.call i c)).registry = w.registry := by
  simp only [World.perform]
  split <;> rfl

theorem grows_perform (h : Ordered w) (action : Action) :
    w.registry.Grows (w.perform action).registry := by
  cases action with
  | call i c =>
    rw [registry_perform_call]
    exact .refl w.registry
  | go i => exact grows_go h i
  | memory m => exact .refl w.registry

theorem grows_run (h : Ordered w) (schedule : List Action) :
    w.registry.Grows (w.run schedule).registry := by
  induction schedule generalizing w with
  | nil => exact .refl w.registry
  | cons action schedule ih =>
    exact (grows_perform h action).trans (ih (ordered_perform h action))

/-- One thread at a time is inside. -/
theorem Ordered.isInside_of_ne (h : Ordered w) {j : Nat} (hi : (w.threads i).isInside = true)
    (hj : j ≠ i) : (w.threads j).isInside = false := by
  cases hin : (w.threads j).isInside with
  | false => rfl
  | true => exact absurd (Option.some.inj (((h.gate j).1 hin).symm.trans ((h.gate i).1 hi))) hj

/-- What is not a step of the thread inside writes nothing. -/
theorem extends_perform (h : Ordered w) (hi : (w.threads i).isInside = true) {action : Action}
    (ha : action ≠ .go i) : w.registry.Extends (w.perform action).registry := by
  cases action with
  | call j c =>
    rw [registry_perform_call]
    exact .refl w.registry
  | go j => exact extends_go h (h.isInside_of_ne hi fun hj => ha (hj ▸ rfl))
  | memory m => exact .refl w.registry

end

/-! ## Reports -/

end Threads

/-- The report tells what the entry of a name came to. -/
def Report.Mentions (report : Report) (name : String) : Prop :=
  (∃ address, (name, address) ∈ report.resolved) ∨ ∃ f ∈ report.failed, f.name = name

theorem Report.Mentions.note {report : Report} {name : String} (h : report.Mentions name)
    (e : Entry) : (report.note e).Mentions name := by
  unfold Report.note
  split
  · exact h
  · exact h.imp (fun ⟨address, hmem⟩ => ⟨address, List.mem_append_left _ hmem⟩) id
  · exact h.imp id fun ⟨f, hmem, hf⟩ => ⟨f, List.mem_append_left _ hmem, hf⟩

/-- A report that looks at a settled entry mentions it. -/
theorem Report.mentions_note {e : Entry} {name : String} (hn : e.NamedBy name)
    (hs : e.isSettled = true) (report : Report) : (report.note e).Mentions name := by
  unfold Report.note
  cases hstate : e.state with
  | unresolved => simp [Entry.isSettled, hstate] at hs
  | resolved address => exact .inl ⟨address, by simp [hn.name_eq]⟩
  | failed failure => exact .inr ⟨failure, by simp, hn.failure_name failure hstate⟩

namespace Threads

open Session (Reply)

/-- A thread outside the gate is on its way to a report that mentions the names. -/
def Outside.Reports (r : Registry) (names : String → Prop) : Outside → Prop
  | wait .report => ∀ name, names name → r.Has name
  | survey => ∀ name, names name → r.Settled name
  | tally rest report =>
    ∀ name, names name → r.Settled name ∧ (name ∈ rest ∨ report.Mentions name)
  | finish call reply => call = .resolveAll ∧
    ∃ report, reply = .report report ∧ ∀ name, names name → report.Mentions name
  | _ => False

/-- The thread inside the gate is on its way to a report that mentions the names. -/
def Inside.Reports (r : Registry) (names : String → Prop) : Inside → Prop
  | collect .report => ∀ name, names name → r.Has name
  | scan .report pending => r.Covers names pending
  | settle .report _ rest => r.Covers names rest
  | release next => next.Reports r names
  | _ => False

/-- A thread is on its way to a report that mentions the names. -/
def Thread.Reports (r : Registry) (names : String → Prop) : Thread → Prop
  | idle => False
  | outside step => step.Reports r names
  | inside step => step.Reports r names

section

variable {w : World} {i : Nat} {names : String → Prop} {r r' : Registry}

theorem Outside.Reports.grows {step : Outside} (h : step.Reports r names) (hg : r.Grows r') :
    step.Reports r' names := by
  cases step with
  | wait errand =>
    cases errand with
    | address => exact h
    | report => exact fun name hname => (h name hname).grows hg
  | survey => exact fun name hname => (h name hname).grows hg
  | tally rest report => exact fun name hname => (h name hname).imp (·.grows hg) id
  | _ => exact h

theorem Inside.Reports.extends {step : Inside} (h : step.Reports r names)
    (hx : r.Extends r') : step.Reports r' names := by
  cases step with
  | collect errand =>
    cases errand with
    | address => exact h
    | report => exact fun name hname => (h name hname).grows hx.grows
  | scan errand pending =>
    cases errand with
    | address => exact h
    | report => exact Registry.Covers.extends h hx
  | settle errand pass rest =>
    cases errand with
    | address => exact h
    | report => exact Registry.Covers.extends h hx
  | release next => exact Outside.Reports.grows h hx.grows
  | _ => exact h

/-- A step of a thread outside keeps it on its way; it is idle only once the report is out. -/
theorem reports_goOutside {step : Outside} (hn : w.registry.Named)
    (h : step.Reports w.registry names) (hw : w.threads i = .outside step) :
    (w.goOutside i step).threads i = .idle ∨
      ((w.goOutside i step).threads i).Reports (w.goOutside i step).registry names := by
  cases step with
  | wait errand =>
    cases errand with
    | address => exact h.elim
    | report =>
      simp only [World.goOutside, World.enter]
      split
      · rw [World.threads_move_self]
        exact .inr h
      · rw [hw]
        exact .inr h
  | survey =>
    refine .inr ?_
    rw [World.goOutside, World.threads_move_self]
    intro name hname
    obtain ⟨e, hf, hs⟩ := h name hname
    refine ⟨⟨e, hf, hs⟩, .inl ?_⟩
    rw [← (hn.entry name e hf).name_eq]
    exact List.mem_map_of_mem (NameTable.mem_values_of_find? hf)
  | tally rest report =>
    refine .inr ?_
    cases rest with
    | nil =>
      rw [World.goOutside, World.threads_move_self]
      refine ⟨rfl, report, rfl, fun name hname => ?_⟩
      simpa using (h name hname).2
    | cons first rest =>
      simp only [World.goOutside]
      cases hf : w.registry.find? first with
      | none =>
        simp only [World.threads_move_self]
        intro name hname
        obtain ⟨⟨e, hf', hs⟩, hmem⟩ := h name hname
        have hne : name ≠ first := by
          rintro rfl
          simp [hf] at hf'
        exact ⟨⟨e, hf', hs⟩, hmem.imp (fun hmem => by simpa [hne] using hmem) id⟩
      | some e =>
        simp only [World.threads_move_self]
        intro name hname
        obtain ⟨⟨e', hf', hs⟩, hmem⟩ := h name hname
        refine ⟨⟨e', hf', hs⟩, ?_⟩
        by_cases hne : name = first
        · subst hne
          obtain rfl := Option.some.inj (hf.symm.trans hf')
          exact .inr (Report.mentions_note (hn.entry name e hf) hs report)
        · exact hmem.imp (fun hmem => by simpa [hne] using hmem) (·.note e)
  | finish call reply => exact .inl (by simp [World.goOutside])
  | _ => exact h.elim

/-- A step of the thread inside keeps it on its way. -/
theorem reports_goInside {step : Inside} (hn : w.registry.Named)
    (h : step.Reports w.registry names) :
    ((w.goInside i step).threads i).Reports (w.goInside i step).registry names := by
  cases step with
  | collect errand =>
    cases errand with
    | address => exact h.elim
    | report =>
      have hcovers := Registry.covers_pending h
      simp only [World.goInside]
      split
      · next hp =>
        rw [hp] at hcovers
        rw [World.threads_move_self]
        exact fun name => Registry.settled_of_covers_nil hcovers
      · next e rest hp =>
        rw [hp] at hcovers
        rw [World.threads_move_self]
        exact hcovers
  | scan errand pending =>
    cases errand with
    | address => exact h.elim
    | report =>
      rw [World.goInside, World.threads_move_self]
      exact h
  | settle errand pass rest =>
    cases errand with
    | address => exact h.elim
    | report =>
      cases rest with
      | nil =>
        rw [World.goInside, World.threads_move_self]
        exact fun name => Registry.settled_of_covers_nil h
      | cons e rest =>
        rw [World.goInside, World.threads_move_self]
        exact Registry.covers_settle hn h _
  | release next =>
    rw [World.goInside, World.threads_move_self]
    exact h
  | _ => exact h.elim

theorem reports_go (h : Ordered w) (hr : (w.threads i).Reports w.registry names) :
    (w.go i).threads i = .idle ∨ ((w.go i).threads i).Reports (w.go i).registry names := by
  unfold World.go
  cases hw : w.threads i with
  | idle => exact .inl hw
  | outside step =>
    rw [hw] at hr
    exact reports_goOutside h.named hr hw
  | inside step =>
    rw [hw] at hr
    exact .inr (reports_goInside h.named hr)

theorem reports_perform (h : Ordered w) (hr : (w.threads i).Reports w.registry names)
    (action : Action) : (w.perform action).threads i = .idle ∨
      ((w.perform action).threads i).Reports (w.perform action).registry names := by
  by_cases ha : action = .go i
  · subst ha
    exact reports_go h hr
  refine .inr ?_
  cases hw : w.threads i with
  | idle => simp [hw, Thread.Reports] at hr
  | outside step =>
    rw [World.threads_perform (by simp [hw]) ha, hw]
    rw [hw] at hr
    exact Outside.Reports.grows hr (grows_perform h action)
  | inside step =>
    rw [World.threads_perform (by simp [hw]) ha, hw]
    rw [hw] at hr
    exact Inside.Reports.extends hr (extends_perform h (by simp [hw, Thread.isInside]) ha)

/-- A thread stays on its way to its report while its call lasts. -/
theorem reports_run (h : Ordered w) {schedule : List Action}
    (hr : (w.threads i).Reports w.registry names)
    (hlasts : ∀ tr ∈ trace w schedule, tr.before.threads i ≠ .idle) :
    (w.run schedule).threads i = .idle ∨
      ((w.run schedule).threads i).Reports (w.run schedule).registry names := by
  induction schedule generalizing w with
  | nil => exact .inr hr
  | cons action schedule ih =>
    have hrest := fun tr htr => hlasts tr (List.mem_cons_of_mem _ htr)
    rcases reports_perform h hr action with hidle | hr'
    · -- The call is over, so nothing can follow.
      cases schedule with
      | nil => exact .inl hidle
      | cons next schedule => exact absurd hidle (hrest _ List.mem_cons_self)
    · exact ih (ordered_perform h action) hr' hrest

/-- The report of a call mentions every name that had an entry when the call was made. -/
theorem mentions_of_serves (h : Ordered w) {schedule : List Action} {start : World}
    {reply : Reply} (hs : Serves w schedule i start .resolveAll reply) :
    ∃ report, reply = .report report ∧
      ∀ name, start.registry.Has name → report.Mentions name := by
  obtain ⟨-, rfl, hidle, hlasts, hreply⟩ := hs
  rename_i a b c made
  have hordered := ordered_run h a
  -- The call starts on its way to a report of all that is there.
  have hstart : (((w.run a).perform (.call i .resolveAll)).threads i).Reports
      ((w.run a).perform (.call i .resolveAll)).registry (w.run a).registry.Has := by
    rw [World.perform_call_of_idle hidle, World.threads_move_self]
    exact fun name hname => hname
  rcases reports_run (ordered_perform hordered _) hstart hlasts with hover | hreports
  · simp [hover] at hreply
  · rw [hreply] at hreports
    exact hreports.2

end

/-! ## The number of passes -/

/-- Whether the thread is in the middle of a pass. -/
def Thread.inPass : Thread → Bool
  | inside (.scan _ _) => true
  | inside (.settle _ _ _) => true
  | _ => false

/-- How far the only pass is: it has taken its list, it has run, or nothing is pending. -/
inductive Passing (w : World) : Prop where
  | scanning {i : Nat} {errand : Errand} {pending : List Entry}
      (hthread : w.threads i = .inside (.scan errand pending))
      (hcovers : w.registry.Covers w.registry.Has pending)
      (hcount : w.table.scanCount = 0)
  | settling {i : Nat} {errand : Errand} {pass : Scan.Pass} {rest : List Entry}
      (hthread : w.threads i = .inside (.settle errand pass rest))
      (hcovers : w.registry.Covers w.registry.Has rest)
      (hcount : w.table.scanCount = 1)
  | done (hsettled : ∀ name, w.registry.Has name → w.registry.Settled name)
      (hnone : ∀ i, (w.threads i).inPass = false) (hcount : w.table.scanCount ≤ 1)

namespace Transition

/-- A name gets an entry. -/
def Registers (tr : Transition) (name : String) : Prop :=
  tr.before.registry.find? name = none ∧ tr.after.registry.Has name

/-- A thread takes a list of the pending entries that is not empty. -/
def Snapshots (tr : Transition) : Prop :=
  ∃ i errand, tr.action = .go i ∧ tr.before.threads i = .inside (.collect errand)
    ∧ tr.before.registry.pending ≠ []

end Transition

section

variable {w : World} {i : Nat}

theorem inPass_of_isInside {thread : Thread} (h : thread.isInside = false) :
    thread.inPass = false := by
  cases thread with
  | inside step => nomatch h
  | _ => rfl

theorem World.StepsOutside.scanCount_eq {w' : World} (h : w.StepsOutside i w') :
    w'.table.scanCount = w.table.scanCount := by
  cases h <;> rfl

theorem scanCount_goInside {step : Inside} (hstep : (Thread.inside step).inPass = false) :
    (w.goInside i step).table.scanCount = w.table.scanCount := by
  fun_cases World.goInside w i step with
  | case5 => cases hstep
  | case7 => cases hstep
  | _ => rfl

/-- Only the scan of a pass counts. -/
theorem scanCount_go (h : Ordered w) (hi : (w.threads i).inPass = false) :
    (w.go i).table.scanCount = w.table.scanCount := by
  have hsound := h.sound i
  unfold World.go
  cases hw : w.threads i with
  | idle => rfl
  | outside step =>
    rw [hw] at hsound
    exact (World.goOutside_spec h.named hsound).scanCount_eq
  | inside step =>
    rw [hw] at hi
    exact scanCount_goInside hi

@[simp] theorem inPass_idle : Thread.idle.inPass = false := rfl

@[simp] theorem inPass_outside (step : Outside) : (Thread.outside step).inPass = false := rfl

@[simp] theorem inPass_enter (errand : Errand) : (Thread.inside errand.enter).inPass = false := by
  cases errand <;> rfl

@[simp] theorem inPass_passed (errand : Errand) :
    (Thread.inside errand.passed).inPass = false := by
  cases errand <;> rfl

theorem inPass_goOutside {step : Outside} (hw : w.threads i = .outside step) :
    ((w.goOutside i step).threads i).inPass = false := by
  have henter : ∀ next : Inside, (Thread.inside next).inPass = false →
      ((w.enter i next).threads i).inPass = false := by
    intro next hnext
    unfold World.enter
    split
    · simpa using hnext
    · simp [hw]
  fun_cases World.goOutside w i step with
  | case6 errand => exact henter _ (inPass_enter errand)
  | case10 name address => exact henter _ rfl
  | _ => simp

theorem inPass_goInside {step : Inside} (hstep : (Thread.inside step).inPass = false)
    (hw : w.threads i = .inside step) (hpass : ((w.goInside i step).threads i).inPass = true) :
    ∃ errand, step = .collect errand ∧ w.registry.pending ≠ [] := by
  revert hpass
  fun_cases World.goInside w i step with
  | case3 => simp
  | case4 errand e rest hp => exact fun _ => ⟨errand, rfl, by simp [hp]⟩
  | case5 => cases hstep
  | case6 => cases hstep
  | case7 => cases hstep
  | case8 => simp [hw, hstep]
  | _ => simp [Thread.inPass]

/-- A pass begins with a list of pending entries that is not empty. -/
theorem inPass_go (hi : (w.threads i).inPass = false)
    (hpass : ((w.go i).threads i).inPass = true) :
    ∃ errand, w.threads i = .inside (.collect errand) ∧ w.registry.pending ≠ [] := by
  unfold World.go at hpass
  cases hw : w.threads i with
  | idle => simp [hw] at hpass
  | outside step =>
    simp only [hw, inPass_goOutside hw] at hpass
    nomatch hpass
  | inside step =>
    rw [hw] at hi
    simp only [hw] at hpass
    obtain ⟨errand, rfl, hp⟩ := inPass_goInside hi hw hpass
    exact ⟨errand, rfl, hp⟩

theorem inPass_perform {action : Action} {j : Nat} (hj : (w.threads j).inPass = false)
    (hpass : ((w.perform action).threads j).inPass = true) :
    ∃ errand, action = .go j ∧ w.threads j = .inside (.collect errand)
      ∧ w.registry.pending ≠ [] := by
  by_cases ha : action = .go j
  · subst ha
    obtain ⟨errand, hw, hp⟩ := inPass_go hj hpass
    exact ⟨errand, rfl, hw, hp⟩
  · cases hw : w.threads j with
    | idle =>
      cases action with
      | call i c =>
        simp only [World.perform] at hpass
        split at hpass
        · by_cases hij : j = i
          · simp [hij] at hpass
          · simp [hij, hw] at hpass
        · simp [hw] at hpass
      | go i =>
        have hij : j ≠ i := fun heq => ha (heq ▸ rfl)
        rw [World.perform, World.threads_go_of_ne hij, hw] at hpass
        cases hpass
      | memory m =>
        rw [World.perform, hw] at hpass
        cases hpass
    | _ =>
      rw [World.threads_perform (by simp [hw]) ha, hj] at hpass
      cases hpass

theorem scanCount_perform (h : Ordered w) {action : Action}
    (hnone : ∀ i, action = .go i → (w.threads i).inPass = false) :
    (w.perform action).table.scanCount = w.table.scanCount := by
  cases action with
  | call i c =>
    simp only [World.perform]
    split <;> rfl
  | go i => exact scanCount_go h (hnone i rfl)
  | memory m => rfl

/-- With all names settled nothing is pending. -/
theorem pending_eq_nil {r : Registry} (h : ∀ name, r.Has name → r.Settled name) :
    r.pending = [] := by
  refine List.filter_eq_nil_iff.2 fun e he => ?_
  obtain ⟨⟨name, e⟩, hmem, rfl⟩ := List.mem_map.1 he
  have hf := NameTable.find?_of_mem_pairs hmem
  obtain ⟨e', hf', hs⟩ := h name ⟨e, hf⟩
  obtain rfl := Option.some.inj (hf.symm.trans hf')
  simp [hs]

/-- What covers all entries goes on to cover them while no name gets an entry. -/
theorem covers_of_extends {r r' : Registry} {rest : List Entry} (h : r.Covers r.Has rest)
    (hx : r.Extends r') (hnew : ∀ name, r'.Has name → r.Has name) : r'.Covers r'.Has rest :=
  fun name hname => (h.extends hx) name (hnew name hname)

/-- Without new entries the only pass goes on. -/
theorem passing_perform (h : Ordered w) (hp : Passing w) {action : Action}
    (hnew : ∀ name, (w.perform action).registry.Has name → w.registry.Has name) :
    Passing (w.perform action) := by
  -- While a thread is inside, the others neither write nor are in a pass.
  have hothers : ∀ {i}, (w.threads i).isInside = true → ∀ j, j ≠ i →
      (w.threads j).inPass = false :=
    fun hi j hj => inPass_of_isInside (h.isInside_of_ne hi hj)
  cases hp with
  | @scanning i errand pending hthread hcovers hcount =>
    have hinside : (w.threads i).isInside = true := by rw [hthread]; rfl
    by_cases ha : action = .go i
    · subst ha
      simp only [World.perform, World.go, hthread]
      exact .settling (World.threads_move_self _ i _) hcovers (congrArg (· + 1) hcount)
    · have hthread' := World.threads_perform (by rw [hthread]; intro hidle; cases hidle) ha
      refine .scanning (hthread'.trans hthread)
        (covers_of_extends hcovers (extends_perform h hinside ha) hnew) ?_
      rw [scanCount_perform h, hcount]
      exact fun j hj => hothers hinside j fun hji => ha (hji ▸ hj)
  | @settling i errand pass rest hthread hcovers hcount =>
    have hinside : (w.threads i).isInside = true := by rw [hthread]; rfl
    by_cases ha : action = .go i
    · subst ha
      simp only [World.perform, World.go, hthread] at hnew ⊢
      cases rest with
      | nil =>
        refine .done (fun name => Registry.settled_of_covers_nil hcovers) (fun j => ?_)
          (Nat.le_of_eq hcount)
        by_cases hj : j = i
        · subst hj
          simp [World.goInside]
        · rw [World.threads_goInside_of_ne hj]
          exact hothers hinside j hj
      | cons e rest =>
        refine .settling (World.threads_move_self _ i _) (fun name hname => ?_) hcount
        exact Registry.covers_settle h.named hcovers _ name (hnew name hname)
    · have hthread' := World.threads_perform (by rw [hthread]; intro hidle; cases hidle) ha
      refine .settling (hthread'.trans hthread)
        (covers_of_extends hcovers (extends_perform h hinside ha) hnew) ?_
      rw [scanCount_perform h, hcount]
      exact fun j hj => hothers hinside j fun hji => ha (hji ▸ hj)
  | done hsettled hnone hcount =>
    refine .done (fun name hname => (hsettled name (hnew name hname)).grows
      (grows_perform h action)) (fun j => ?_) ?_
    · cases hj : ((w.perform action).threads j).inPass with
      | false => rfl
      | true =>
        obtain ⟨errand, -, -, hp⟩ := inPass_perform (hnone j) hj
        exact absurd (pending_eq_nil hsettled) hp
    · rw [scanCount_perform h fun i _ => hnone i]
      exact hcount

theorem passing_run (h : Ordered w) (hp : Passing w) {schedule : List Action}
    (hnew : ∀ tr ∈ trace w schedule, ∀ name, ¬ tr.Registers name) : Passing (w.run schedule) := by
  induction schedule generalizing w with
  | nil => exact hp
  | cons action schedule ih =>
    have hhead := hnew _ List.mem_cons_self
    refine ih (ordered_perform h action) (passing_perform h hp ?_)
      fun tr htr => hnew tr (List.mem_cons_of_mem _ htr)
    intro name hname
    cases hf : w.registry.find? name with
    | some e => exact ⟨e, hf⟩
    | none => exact absurd ⟨hf, hname⟩ (hhead name)

theorem Passing.scanCount_le_one (h : Passing w) : w.table.scanCount ≤ 1 := by
  cases h with
  | scanning _ _ hcount => omega
  | settling _ _ hcount => omega
  | done _ _ hcount => exact hcount

/-- Where no entry is registered once a list of pending entries that is not empty has been
taken, there is at most one pass. -/
theorem scanCount_run_le_one (h : Ordered w) (hcount : w.table.scanCount = 0)
    (hnone : ∀ i, (w.threads i).inPass = false) {schedule : List Action}
    (hnew : (trace w schedule).Pairwise fun a b => a.Snapshots → ∀ name, ¬ b.Registers name) :
    (w.run schedule).table.scanCount ≤ 1 := by
  induction schedule generalizing w with
  | nil => exact hcount ▸ Nat.zero_le 1
  | cons action schedule ih =>
    obtain ⟨hhead, hrest⟩ := List.pairwise_cons.1 hnew
    have hcount' : (w.perform action).table.scanCount = 0 := by
      rw [scanCount_perform h fun i _ => hnone i, hcount]
    by_cases hs : ∃ i errand, action = .go i ∧ w.threads i = .inside (.collect errand)
        ∧ w.registry.pending ≠ []
    · -- The list covers all entries, and none comes after it.
      have hpassing : Passing (w.perform action) := by
        obtain ⟨i, errand, rfl, hw, hp⟩ := hs
        have hcovers := Registry.covers_pending fun name (hname : w.registry.Has name) => hname
        simp only [World.perform, World.go, hw, World.goInside]
        split
        · next hnil => exact absurd hnil hp
        · next e rest hp' =>
          exact .scanning (World.threads_move_self _ i _) (hp' ▸ hcovers) hcount
      refine (passing_run (ordered_perform h action) hpassing fun tr htr => ?_).scanCount_le_one
      exact hhead tr htr hs
    · refine ih (ordered_perform h action) hcount' (fun j => ?_) hrest
      cases hj : ((w.perform action).threads j).inPass with
      | false => rfl
      | true =>
        obtain ⟨errand, ha, hw, hp⟩ := inPass_perform (hnone j) hj
        exact absurd ⟨j, errand, ha, hw, hp⟩ hs

end

end SigScan.Threads
