/-
SigScan.Proofs.Threads.Once — one outcome for each entry, whoever asks.

Any number of threads may register, resolve, prime and report over one table. Whatever the
schedule, a cell is written once, by the thread that holds the gate, so all calls that tell
the outcome of an entry tell the same one. `resolvedOnce` puts this together with what holds
of reports and of the number of passes.
-/
import SigScan.Proofs.Threads.Alone
import SigScan.Proofs.Threads.Passes

namespace SigScan.Threads

open Session (Reply)

/-! ## Writes -/

namespace Transition

/-- The entry of a name is not what it was. -/
def Writes (tr : Transition) (name : String) : Prop :=
  ∃ e, tr.before.registry.find? name = some e ∧ tr.after.registry.find? name ≠ some e

variable {tr : Transition} {name : String}

theorem not_writes_of_extends (h : tr.before.registry.Extends tr.after.registry) :
    ¬ tr.Writes name := by
  rintro ⟨e, hf, hne⟩
  exact hne (h name e hf)

theorem not_writes_of_settled (hg : tr.before.registry.Grows tr.after.registry)
    (h : tr.before.registry.Settled name) : ¬ tr.Writes name := by
  rintro ⟨e, hf, hne⟩
  obtain ⟨e', hf', hs⟩ := h
  obtain rfl := Option.some.inj (hf.symm.trans hf')
  exact hne (hg.find?_of_isSettled hf hs)

/-- What is written is an outcome. -/
theorem settled_of_writes (hg : tr.before.registry.Grows tr.after.registry)
    (h : tr.Writes name) : tr.after.registry.Settled name := by
  obtain ⟨e, hf, hne⟩ := h
  obtain ⟨e', hf', hn, hsig, hd, hkeep⟩ := hg name e hf
  refine ⟨e', hf', ?_⟩
  cases hs : e.isSettled with
  | true => rw [hkeep hs, hs]
  | false =>
    cases hs' : e'.isSettled with
    | true => rfl
    | false =>
      -- Two entries that differ in no field are the same.
      have hstate := Entry.state_of_not_isSettled hs
      have hstate' := Entry.state_of_not_isSettled hs'
      obtain ⟨n, s, d, st⟩ := e
      obtain ⟨n', s', d', st'⟩ := e'
      simp_all

end Transition

section

variable {w : World} {i : Nat} {schedule : List Action} {tr : Transition} {name : String}

/-- At each transition of a schedule the world is in order, and what it leads to grows into
the world at the end. -/
theorem ordered_of_mem_trace (h : Ordered w) (htr : tr ∈ trace w schedule) :
    Ordered tr.before ∧ tr.after = tr.before.perform tr.action
      ∧ w.registry.Grows tr.before.registry
      ∧ tr.before.registry.Grows tr.after.registry
      ∧ tr.after.registry.Grows (w.run schedule).registry := by
  obtain ⟨a, action, b, rfl, rfl⟩ := exists_of_mem_trace htr
  have hordered := ordered_run h a
  refine ⟨hordered, rfl, grows_run h a, grows_perform hordered action, ?_⟩
  rw [run_append]
  exact grows_run (ordered_perform hordered action) b

/-- A cell is written at most once. -/
theorem pairwise_not_writes (h : Ordered w) (schedule : List Action) (name : String) :
    (trace w schedule).Pairwise fun a b => ¬ (a.Writes name ∧ b.Writes name) := by
  induction schedule generalizing w with
  | nil => exact .nil
  | cons action schedule ih =>
    have hordered := ordered_perform h action
    refine List.pairwise_cons.2 ⟨fun tr htr ⟨hfirst, hsecond⟩ => ?_, ih hordered⟩
    obtain ⟨-, -, hbefore, hstep, -⟩ := ordered_of_mem_trace hordered htr
    have hsettled := Transition.settled_of_writes (grows_perform h action) hfirst
    exact Transition.not_writes_of_settled hstep (hsettled.grows hbefore) hsecond

/-- Whoever writes a cell holds the gate. -/
theorem gate_of_writes (h : Ordered w) (htr : tr ∈ trace w schedule) (hwrites : tr.Writes name) :
    ∃ i, tr.action = .go i ∧ tr.before.gate = some i := by
  obtain ⟨hordered, hafter, -⟩ := ordered_of_mem_trace h htr
  have hno : ¬ tr.before.registry.Extends tr.after.registry :=
    fun hx => Transition.not_writes_of_extends hx hwrites
  rw [hafter] at hno
  cases ha : tr.action with
  | call i c =>
    rw [ha, registry_perform_call] at hno
    exact absurd (.refl _) hno
  | memory m =>
    rw [ha] at hno
    exact absurd (.refl _) hno
  | go i =>
    refine ⟨i, rfl, (hordered.gate i).1 ?_⟩
    cases hi : (tr.before.threads i).isInside with
    | true => rfl
    | false =>
      rw [ha] at hno
      exact absurd (extends_go hordered hi) hno

/-- Where a call takes what the cell holds, the cell is full already: the failure that would
fill an empty one is never stored. -/
theorem not_writes_conclude (h : Ordered w) (htr : tr ∈ trace w schedule)
    (ha : tr.action = .go i) {use : Use} {other : String}
    (hi : tr.before.threads i = .inside (.conclude name use)) : ¬ tr.Writes other := by
  obtain ⟨hordered, hafter, -⟩ := ordered_of_mem_trace h htr
  have hsound := hordered.sound i
  rw [hi] at hsound
  obtain ⟨e, hf, hs⟩ : tr.before.registry.Settled name := hsound
  refine Transition.not_writes_of_extends ?_
  rw [hafter, ha, World.perform, World.go, hi]
  simp only [World.goInside, hf]
  exact Registry.settle_of_settled ⟨e, hf, hs⟩ _

/-! ## What calls are told -/

/-- A reply is to the call that was made. -/
theorem made_eq_of_run {w' : World} {call made : Call} {reply : Reply}
    (hcall : (w'.threads i).call? = some call)
    (hlasts : ∀ tr ∈ trace w' schedule, tr.before.threads i ≠ .idle)
    (hreply : (w'.run schedule).threads i = .outside (.finish made reply)) : made = call := by
  induction schedule generalizing w' with
  | nil =>
    have hw : w'.threads i = .outside (.finish made reply) := hreply
    rw [hw] at hcall
    exact Option.some.inj hcall
  | cons action schedule ih =>
    have hrest := fun tr htr => hlasts tr (List.mem_cons_of_mem _ htr)
    rcases World.call?_perform (hlasts _ List.mem_cons_self) action with hidle | hsame
    · -- The call is over, so nothing can follow.
      cases schedule with
      | nil => exact absurd hreply (by simp [World.run, hidle])
      | cons next schedule => exact absurd hidle (hrest _ List.mem_cons_self)
    · exact ih (hsame.trans hcall) hrest hreply

/-- What a call is told of an entry is what its cell holds from then on. -/
theorem stores_of_serves (h : Ordered w) {start : World} {call : Call} {reply : Reply}
    (hs : Serves w schedule i start call reply) {o : Except ResolveFailure UInt64}
    (ht : Tells call reply name o) : (w.run schedule).registry.Stores name o := by
  obtain ⟨rfl, rfl, hidle, hlasts, hreply⟩ := hs
  rename_i a b c made
  have hcall := ordered_perform (ordered_run h a) (.call i call)
  obtain rfl : made = call := by
    refine made_eq_of_run ?_ hlasts hreply
    rw [World.perform_call_of_idle hidle, World.threads_move_self, Thread.call?, call_start]
  have hend := ordered_run hcall b
  have hsound := hend.sound i
  rw [hreply] at hsound
  have hstores : ((w.run a).perform (.call i made) |>.run b).registry.Stores name o :=
    hsound name o ht
  rw [run_append]
  refine hstores.grows ?_
  have hrun := grows_run hend (.go i :: c)
  rwa [← run_append] at hrun

/-- A pointer is read at the address that the cell holds. -/
theorem stores_of_fetch (h : Ordered w) (htr : tr ∈ trace w schedule) {address : UInt64}
    (hi : tr.before.threads i = .outside (.fetch name address)) :
    (w.run schedule).registry.Stores name (.ok address) := by
  obtain ⟨hordered, -, -, hstep, hend⟩ := ordered_of_mem_trace h htr
  have hsound := hordered.sound i
  rw [hi] at hsound
  exact Registry.Stores.grows hsound (hstep.trans hend)

end

/-! ## One outcome for each entry -/

/-- What holds of the entries, of the calls and of the passes under a schedule. -/
structure ResolvedOnce (w : World) (schedule : List Action) : Prop where
  /-- A cell is written at most once. -/
  written_once : ∀ name,
    (trace w schedule).Pairwise fun a b => ¬ (a.Writes name ∧ b.Writes name)
  /-- Only the thread that holds the gate writes to a cell. -/
  written_inside : ∀ tr ∈ trace w schedule, ∀ name, tr.Writes name →
    ∃ i, tr.action = .go i ∧ tr.before.gate = some i
  /-- What is told of an entry is what its cell holds at the end. -/
  stored : ∀ i start call reply name o, Serves w schedule i start call reply →
    Tells call reply name o → (w.run schedule).registry.Stores name o
  /-- All calls that tell the outcome of an entry tell the same one. -/
  agree : ∀ i i' start start' call call' reply reply' name o o',
    Serves w schedule i start call reply → Serves w schedule i' start' call' reply' →
    Tells call reply name o → Tells call' reply' name o' → o = o'
  /-- A pointer is read at the address that the cell holds. -/
  followed : ∀ tr ∈ trace w schedule, ∀ i name address,
    tr.before.threads i = .outside (.fetch name address) →
      (w.run schedule).registry.Stores name (.ok address)
  /-- The failure for an empty cell at the end of a call is never stored. -/
  concluded : ∀ tr ∈ trace w schedule, ∀ i name use other, tr.action = .go i →
    tr.before.threads i = .inside (.conclude name use) → ¬ tr.Writes other
  /-- A report mentions every name that had an entry when the call for it was made. -/
  reported : ∀ i start reply, Serves w schedule i start .resolveAll reply →
    ∃ report, reply = .report report ∧
      ∀ name, start.registry.Has name → report.Mentions name
  /-- Without new entries behind the first list of pending entries that is not empty, there
  is at most one pass. -/
  scanned_once :
    ((trace w schedule).Pairwise fun a b => a.Snapshots → ∀ name, ¬ b.Registers name) →
      (w.run schedule).table.scanCount ≤ 1

/-- Whatever any number of threads call, and however their steps interleave, every entry is
resolved once. -/
theorem resolvedOnce (memory : Source) (regions : List Region) (config : Scan.Config)
    (schedule : List Action) : ResolvedOnce (.start memory regions config) schedule := by
  have h := ordered_start memory regions config
  refine ⟨pairwise_not_writes h schedule, fun tr htr name => gate_of_writes h htr, ?_, ?_, ?_,
    ?_, fun i start reply => mentions_of_serves h, ?_⟩
  · exact fun i start call reply name o hs ht => stores_of_serves h hs ht
  · intro i i' start start' call call' reply reply' name o o' hs hs' ht ht'
    exact (stores_of_serves h hs ht).unique (stores_of_serves h hs' ht')
  · exact fun tr htr i name address => stores_of_fetch h htr
  · exact fun tr htr i name use other ha hi => not_writes_conclude h htr ha hi
  · exact scanCount_run_le_one h rfl fun i => rfl

/-! ## A race -/

/-- The address that a thread is about to reply with. -/
def Thread.address? : Thread → Option UInt64
  | outside (.finish _ (.address (.ok address))) => some address
  | _ => none

/-- A call is served with an address if the thread replies with it in the end. -/
theorem serves_address {w : World} {a b c schedule : List Action} {i : Nat} {call : Call}
    {address : UInt64} (hschedule : schedule = a ++ .call i call :: (b ++ .go i :: c))
    (hidle : ((w.run a).threads i).call?.isNone = true)
    (hlasts : (trace ((w.run a).perform (.call i call)) b).all
      (fun tr => (tr.before.threads i).call?.isSome) = true)
    (hreply : ((((w.run a).perform (.call i call)).run b).threads i).address? = some address) :
    Serves w schedule i (w.run a) call (.address (.ok address)) := by
  obtain ⟨made, hmade⟩ : ∃ made, (((w.run a).perform (.call i call)).run b).threads i =
      .outside (.finish made (.address (.ok address))) := by
    unfold Thread.address? at hreply
    split at hreply
    · next made found heq =>
      obtain rfl := Option.some.inj hreply
      exact ⟨made, heq⟩
    · contradiction
  refine .intro hschedule rfl ?_ ?_ hmade
  · cases ht : (w.run a).threads i with
    | idle => rfl
    | outside step => simp [ht, Thread.call?] at hidle
    | inside step => simp [ht, Thread.call?] at hidle
  · intro tr htr hnone
    have hsome := List.all_eq_true.1 hlasts tr htr
    simp [hnone, Thread.call?] at hsome

/-- Memory in which each address holds its own lowest byte, and a region with one `AA`. -/
def raceStart : World :=
  .start (.ofContents UInt64.toUInt8) [⟨0xA8, 8, .code⟩] ⟨8, false⟩

/-- Two threads ask for the same entry at once; the second waits while the first scans. -/
def race : List Action :=
  [.call 0 (.register ⟨"A", "AA", none, false⟩), .go 0, .call 1 (.value "A"),
    .call 2 (.value "A"), .go 1, .go 2, .go 1, .go 2, .go 2, .go 1, .go 2, .go 1, .go 2, .go 2,
    .go 1, .go 2, .go 2, .go 2, .go 2, .go 1, .go 1, .go 1, .go 1, .go 1, .go 2]

/-- The race, and a report behind it that a third thread asks for and that takes `n` steps. -/
def raceAndReport (n : Nat) : List Action :=
  race ++ .call 3 .resolveAll :: (List.replicate n (.go 3) ++ [.go 3])

/-- Both calls of the race are told the address that is found, after one pass. Behind them the
gate is free, so the report comes as well, and it mentions the entry. -/
theorem resolvedOnce_race :
    ∃ n, ∃ report : Report,
      Serves raceStart (raceAndReport n) 1 (raceStart.run (race.take 2)) (.value "A")
        (.address (.ok 0xAA))
      ∧ Serves raceStart (raceAndReport n) 2 (raceStart.run (race.take 3)) (.value "A")
        (.address (.ok 0xAA))
      ∧ Serves raceStart (raceAndReport n) 3 (raceStart.run race) .resolveAll (.report report)
      ∧ report.Mentions "A"
      ∧ (raceStart.run (raceAndReport n)).registry.Stores "A" (.ok 0xAA)
      ∧ (raceStart.run race).table.scanCount = 1 := by
  have hordered : Ordered raceStart := ordered_start _ _ _
  obtain ⟨n, hthree⟩ := exists_serves hordered (a := race) (i := 3) (by decide) rfl .resolveAll
  have hone : Serves raceStart race 1 (raceStart.run (race.take 2)) (.value "A")
      (.address (.ok 0xAA)) :=
    serves_address (b := (race.drop 3).take 20) (c := [.go 2]) rfl (by decide) (by decide)
      (by decide)
  have htwo : Serves raceStart race 2 (raceStart.run (race.take 3)) (.value "A")
      (.address (.ok 0xAA)) :=
    serves_address (b := (race.drop 4).take 20) (c := []) rfl (by decide) (by decide) (by decide)
  have honce : ResolvedOnce raceStart (raceAndReport n) := resolvedOnce _ _ _ _
  obtain ⟨report, hreport, hmentions⟩ := honce.reported 3 _ _ hthree
  rw [hreport] at hthree
  have hhas : ((raceStart.run race).registry.find? "A").isSome = true := by decide
  exact ⟨n, report, hone.append _, htwo.append _, hthree,
    hmentions "A" (Option.isSome_iff_exists.1 hhas),
    honce.stored 1 _ _ _ _ _ (hone.append _) (.value "A" (.ok 0xAA)), by decide⟩

end SigScan.Threads
