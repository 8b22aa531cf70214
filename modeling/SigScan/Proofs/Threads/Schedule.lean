/-
SigScan.Proofs.Threads.Schedule — many threads over one table.

A table may be shared by any number of threads. A call is a row of steps, each of which
reads or changes the table at once; between two steps of one thread any number of steps of
others may come, and the memory of the module may change. A pass and the writing of a cell
happen inside a gate that one thread at a time may hold; looking up, registering and the
first look at a cell happen outside of it. An entry is never removed or replaced, so a
thread that holds on to an entry holds on to its name.

A schedule says who goes on next. Every interleaving of every program is the trace of some
schedule from a world in which no thread has called anything (`World.start`, `trace`). A
thread that cannot go on, since it waits for the gate, stays where it is.

Main statements: a step of a thread leaves the other threads where they are
(`threads_go_of_ne`), and a transition of a trace stands between the actions before it and
those behind it (`exists_of_mem_trace`).
-/
import SigScan.Proofs.Session.WriteOnce

namespace SigScan.Threads

open Session (Reply)

/-! ## Calls and their steps -/

/-- What a thread may ask of the table. -/
inductive Call where
  | register (definition : Definition)
  | value (name : String)
  | readPointer (name : String)
  | prime (name : String) (address : UInt64)
  | resolveAll

/-- What the address of an entry is wanted for. -/
inductive Use where
  /-- The address itself. -/
  | value
  /-- The pointer that is stored there. -/
  | pointer

/-- What a pass is wanted for. -/
inductive Errand where
  | address (name : String) (use : Use)
  | report

/-- The step that a thread outside the gate takes next. -/
inductive Outside where
  | register (definition : Definition)
  | lookUp (name : String) (use : Use)
  /-- Looks at the cell of an entry without the gate. -/
  | peek (name : String) (use : Use)
  | wait (errand : Errand)
  /-- Reads the pointer at an address. -/
  | fetch (name : String) (address : UInt64)
  | lookUpToPrime (name : String) (address : UInt64)
  | waitToPrime (name : String) (address : UInt64)
  /-- Lists the entries for a report. -/
  | survey
  /-- Looks at the cells of the listed entries one after another. -/
  | tally (rest : List String) (report : Report)
  | finish (call : Call) (reply : Reply)

/-- The step that a thread inside the gate takes next. -/
inductive Inside where
  /-- Looks at the cell of an entry again. -/
  | check (name : String) (use : Use)
  /-- Lists the entries that are pending. -/
  | collect (errand : Errand)
  | scan (errand : Errand) (pending : List Entry)
  /-- Settles the entries of a pass one after another. -/
  | settle (errand : Errand) (pass : Scan.Pass) (rest : List Entry)
  /-- Takes what the cell holds; an empty cell would be settled as a failure. -/
  | conclude (name : String) (use : Use)
  | test (name : String) (address : UInt64)
  | write (name : String) (address : UInt64)
  | release (next : Outside)

/-- Where a thread is. -/
inductive Thread where
  | idle
  | outside (step : Outside)
  | inside (step : Inside)

/-- Whether the thread is inside the gate. -/
def Thread.isInside : Thread → Bool
  | inside _ => true
  | _ => false

namespace Use

/-- The call that wants the address of an entry. -/
def call (name : String) : Use → Call
  | value => .value name
  | pointer => .readPointer name

/-- Where a call goes on with the answer of a cell: an address may still be the place of the
pointer that is wanted. -/
def answered (name : String) : Use → Except Error UInt64 → Outside
  | pointer, .ok address => .fetch name address
  | pointer, .error error => .finish (.readPointer name) (.address (.error error))
  | value, answer => .finish (.value name) (.address answer)

/-- Where a call goes on with an entry that was found. -/
def found (name : String) (e : Entry) : Use → Outside
  | value => .peek name .value
  | pointer =>
    if e.deref then .peek name .pointer
    else .finish (.readPointer name) (.address (.error (.notAPointer name)))

end Use

namespace Errand

/-- The first step inside the gate. -/
def enter : Errand → Inside
  | address name use => .check name use
  | report => .collect .report

/-- The step behind the pass. -/
def passed : Errand → Inside
  | address name use => .conclude name use
  | report => .release .survey

end Errand

/-- The first step of a call. -/
def Call.start : Call → Outside
  | register d => .register d
  | value name => .lookUp name .value
  | readPointer name => .lookUp name .pointer
  | prime name address => .lookUpToPrime name address
  | resolveAll => .wait .report

/-! ### The call behind a step -/

/-- The call that wants a pass. -/
def Errand.call : Errand → Call
  | address name use => use.call name
  | report => .resolveAll

/-- The call that a step outside the gate belongs to. -/
def Outside.call : Outside → Call
  | register d => .register d
  | lookUp name use => use.call name
  | peek name use => use.call name
  | wait errand => errand.call
  | fetch name _ => .readPointer name
  | lookUpToPrime name address => .prime name address
  | waitToPrime name address => .prime name address
  | survey => .resolveAll
  | tally _ _ => .resolveAll
  | finish call _ => call

/-- The call that a step inside the gate belongs to. -/
def Inside.call : Inside → Call
  | check name use => use.call name
  | collect errand => errand.call
  | scan errand _ => errand.call
  | settle errand _ _ => errand.call
  | conclude name use => use.call name
  | test name address => .prime name address
  | write name address => .prime name address
  | release next => next.call

/-- The call that a thread is in. -/
def Thread.call? : Thread → Option Call
  | idle => none
  | outside step => some step.call
  | inside step => some step.call

/-- A call begins with a step of its own. -/
theorem call_start (c : Call) : c.start.call = c := by
  cases c <;> rfl

/-- A thread that goes on with an answer stays in its call. -/
theorem call_answered (name : String) (use : Use) (answer : Except Error UInt64) :
    (use.answered name answer).call = use.call name := by
  cases use <;> cases answer <;> rfl

/-- A thread that goes on with an entry stays in its call. -/
theorem call_found (name : String) (e : Entry) (use : Use) :
    (use.found name e).call = use.call name := by
  cases use with
  | value => rfl
  | pointer => cases hd : e.deref <;> simp [Use.found, hd, Outside.call, Use.call]

theorem call_enter (errand : Errand) : errand.enter.call = errand.call := by
  cases errand <;> rfl

theorem call_passed (errand : Errand) : errand.passed.call = errand.call := by
  cases errand <;> rfl

end Threads

/-- The report with what the cell of one more entry holds. -/
def Report.note (r : Report) (e : Entry) : Report :=
  match e.state with
  | .unresolved => r
  | .resolved address => { r with resolved := r.resolved ++ [(e.name, address)] }
  | .failed failure => { r with failed := r.failed ++ [failure] }

namespace Threads

/-! ## Worlds -/

/-- A shared table, the thread that holds the gate, and where each thread is. -/
structure World where
  table : AddressTable
  gate : Option Nat
  threads : Nat → Thread

namespace World

/-- A table without entries, and no thread has called anything. -/
def start (memory : Source) (regions : List Region) (config : Scan.Config) : World :=
  ⟨.new memory regions config, none, fun _ => .idle⟩

/-- The shared entries. -/
def registry (w : World) : Registry :=
  w.table.registry

/-- The world with one thread elsewhere. -/
def move (w : World) (i : Nat) (thread : Thread) : World :=
  { w with threads := fun j => if j = i then thread else w.threads j }

/-- The world with other entries. -/
def put (w : World) (r : Registry) : World :=
  { w with table := { w.table with registry := r } }

/-- A thread takes the gate if it is free. -/
def enter (w : World) (i : Nat) (step : Inside) : World :=
  match w.gate with
  | none => { w with gate := some i }.move i (.inside step)
  | some _ => w

/-- A thread outside the gate takes its next step. -/
def goOutside (w : World) (i : Nat) : Outside → World
  | .register d =>
    let (reply, table) := Session.registered w.table (w.registry.registerDefinition d)
    { w with table := table }.move i (.outside (.finish (.register d) reply))
  | .lookUp name use =>
    match w.registry.find? name with
    | none =>
      w.move i (.outside (.finish (use.call name) (.address (.error (.unknown name)))))
    | some e => w.move i (.outside (use.found name e))
  | .peek name use =>
    match (w.registry.find? name).bind fun e => e.state.answer? with
    | none => w.move i (.outside (.wait (.address name use)))
    | some answer => w.move i (.outside (use.answered name answer))
  | .wait errand => w.enter i errand.enter
  | .fetch name address =>
    let pointer := (w.table.memory.readUInt64 address).mapError .readFailed
    w.move i (.outside (.finish (.readPointer name) (.address pointer)))
  | .lookUpToPrime name address =>
    match w.registry.find? name with
    | none =>
      w.move i (.outside (.finish (.prime name address) (.primed (.error (.unknown name)))))
    | some _ => w.move i (.outside (.waitToPrime name address))
  | .waitToPrime name address => w.enter i (.test name address)
  | .survey => w.move i (.outside (.tally (w.registry.all.map Entry.name) ⟨[], []⟩))
  | .tally [] report => w.move i (.outside (.finish .resolveAll (.report report)))
  | .tally (name :: rest) report =>
    match w.registry.find? name with
    | none => w.move i (.outside (.tally rest report))
    | some e => w.move i (.outside (.tally rest (report.note e)))
  | .finish _ _ => w.move i .idle

/-- A thread inside the gate takes its next step. -/
def goInside (w : World) (i : Nat) : Inside → World
  | .check name use =>
    match (w.registry.find? name).bind fun e => e.state.answer? with
    | none => w.move i (.inside (.collect (.address name use)))
    | some _ => w.move i (.inside (.conclude name use))
  | .collect errand =>
    match w.registry.pending with
    | [] => w.move i (.inside errand.passed)
    | e :: rest => w.move i (.inside (.scan errand (e :: rest)))
  | .scan errand pending =>
    let pass := Scan.Pass.read w.table.memory w.table.config w.table.regions
      (pending.map Entry.signature)
    { w with table := { w.table with scanCount := w.table.scanCount + 1 } }.move i
      (.inside (.settle errand pass pending))
  | .settle errand _ [] => w.move i (.inside errand.passed)
  | .settle errand pass (e :: rest) =>
    let state := .ofOutcome (AddressTable.outcome w.table.memory e (pass.result e.signature))
    (w.put (w.registry.settle e.name state)).move i (.inside (.settle errand pass rest))
  | .conclude name use =>
    match w.registry.find? name with
    | none => w
    | some e =>
      let failure := e.failure .noMatch
      let stored := (e.settle (.failed failure)).state.answer?
      (w.put (w.registry.settle name (.failed failure))).move i
        (.inside (.release (use.answered name (stored.getD (.error (.unresolved failure))))))
  | .test name address =>
    match (w.registry.find? name).bind fun e => e.state.answer? with
    | none => w.move i (.inside (.write name address))
    | some _ =>
      w.move i (.inside (.release (.finish (.prime name address) (.primed (.ok false)))))
  | .write name address =>
    (w.put (w.registry.settle name (.resolved address))).move i
      (.inside (.release (.finish (.prime name address) (.primed (.ok true)))))
  | .release next => { w with gate := none }.move i (.outside next)

/-- A thread takes its next step. -/
def go (w : World) (i : Nat) : World :=
  match w.threads i with
  | .idle => w
  | .outside step => w.goOutside i step
  | .inside step => w.goInside i step

end World

/-! ## Schedules -/

/-- What happens next. -/
inductive Action where
  /-- An idle thread makes a call. -/
  | call (thread : Nat) (call : Call)
  /-- A thread takes the next step of its call. -/
  | go (thread : Nat)
  /-- The memory of the module changes. -/
  | memory (source : Source)

namespace World

/-- The world after an action. -/
def perform (w : World) : Action → World
  | .call i c =>
    match w.threads i with
    | .idle => w.move i (.outside c.start)
    | _ => w
  | .go i => w.go i
  | .memory m => { w with table := { w.table with memory := m } }

/-- The world after a schedule. -/
def run (w : World) (schedule : List Action) : World :=
  schedule.foldl perform w

end World

/-- An action with the worlds before and after it. -/
structure Transition where
  before : World
  action : Action
  after : World

/-- What happens under a schedule, one action after another. -/
def trace (w : World) : List Action → List Transition
  | [] => []
  | a :: schedule => ⟨w, a, w.perform a⟩ :: trace (w.perform a) schedule

/-! ## Threads one by one -/

namespace World

variable {w : World} {i j : Nat}

@[simp] theorem threads_move_self (w : World) (i : Nat) (thread : Thread) :
    (w.move i thread).threads i = thread := by
  simp [move]

@[simp] theorem threads_move_of_ne (w : World) (thread : Thread) (h : j ≠ i) :
    (w.move i thread).threads j = w.threads j := by
  simp [move, h]

@[simp] theorem registry_move (w : World) (i : Nat) (thread : Thread) :
    (w.move i thread).registry = w.registry := rfl

@[simp] theorem table_move (w : World) (i : Nat) (thread : Thread) :
    (w.move i thread).table = w.table := rfl

@[simp] theorem gate_move (w : World) (i : Nat) (thread : Thread) :
    (w.move i thread).gate = w.gate := rfl

@[simp] theorem registry_put (w : World) (r : Registry) : (w.put r).registry = r := rfl

@[simp] theorem gate_put (w : World) (r : Registry) : (w.put r).gate = w.gate := rfl

@[simp] theorem threads_put (w : World) (r : Registry) : (w.put r).threads = w.threads := rfl

theorem perform_call_of_idle (h : w.threads i = .idle) (c : Call) :
    w.perform (.call i c) = w.move i (.outside c.start) := by
  simp only [perform, h]

theorem threads_enter_of_ne (w : World) (h : j ≠ i) (step : Inside) :
    (w.enter i step).threads j = w.threads j := by
  unfold enter
  split <;> simp [h]

/-- A step outside the gate moves no other thread. -/
theorem threads_goOutside_of_ne (h : j ≠ i) (step : Outside) :
    (w.goOutside i step).threads j = w.threads j := by
  fun_cases goOutside w i step <;> simp [h, threads_enter_of_ne]

/-- A step inside the gate moves no other thread. -/
theorem threads_goInside_of_ne (h : j ≠ i) (step : Inside) :
    (w.goInside i step).threads j = w.threads j := by
  fun_cases goInside w i step <;> simp [h]

/-- A thread that takes a step leaves the others where they are. -/
theorem threads_go_of_ne (h : j ≠ i) : (w.go i).threads j = w.threads j := by
  unfold go
  split
  · rfl
  · exact threads_goOutside_of_ne h _
  · exact threads_goInside_of_ne h _

/-- A thread that has called stays where it is until it takes its own next step. -/
theorem threads_perform (hi : w.threads i ≠ .idle) {action : Action} (ha : action ≠ .go i) :
    (w.perform action).threads i = w.threads i := by
  cases action with
  | call j c =>
    simp only [World.perform]
    split
    · next hj => exact World.threads_move_of_ne w _ fun hij => hi (hij ▸ hj)
    · rfl
  | go j => exact World.threads_go_of_ne fun hij => ha (hij ▸ rfl)
  | memory m => rfl

/-! ### A thread is in the call that it made -/

/-- After a step outside the gate a thread is still in its call, or the reply has been given. -/
theorem call?_goOutside {step : Outside} (hw : w.threads i = .outside step) :
    (w.goOutside i step).threads i = .idle ∨
      ((w.goOutside i step).threads i).call? = some step.call := by
  have henter : ∀ next : Inside, next.call = step.call →
      ((w.enter i next).threads i).call? = some step.call := by
    intro next hnext
    unfold enter
    split
    · simp [Thread.call?, hnext]
    · simp [hw, Thread.call?]
  fun_cases goOutside w i step with
  | case3 name use e =>
    rw [threads_move_self]
    exact .inr (congrArg some (call_found name e use))
  | case5 name use answer =>
    rw [threads_move_self]
    exact .inr (congrArg some (call_answered name use answer))
  | case6 errand => exact .inr (henter _ (call_enter errand))
  | case10 name address => exact .inr (henter _ rfl)
  | case15 => exact .inl (threads_move_self _ i _)
  | _ => exact .inr (by rw [threads_move_self]; rfl)

/-- No call ends inside the gate. -/
theorem call?_goInside {step : Inside} (hw : w.threads i = .inside step) :
    ((w.goInside i step).threads i).call? = some step.call := by
  fun_cases goInside w i step with
  | case3 errand =>
    rw [threads_move_self]
    exact congrArg some (call_passed errand)
  | case6 errand =>
    rw [threads_move_self]
    exact congrArg some (call_passed errand)
  | case8 => rw [hw]; rfl
  | case9 name use =>
    rw [threads_move_self]
    exact congrArg some (call_answered name use _)
  | _ => rw [threads_move_self]; rfl

/-- Whatever happens next, a thread stays in its call until it has its reply. -/
theorem call?_perform (hi : w.threads i ≠ .idle) (action : Action) :
    (w.perform action).threads i = .idle ∨
      ((w.perform action).threads i).call? = (w.threads i).call? := by
  by_cases ha : action = .go i
  · subst ha
    simp only [perform, go]
    cases hw : w.threads i with
    | idle => exact absurd hw hi
    | outside step => exact call?_goOutside hw
    | inside step => exact .inr (call?_goInside hw)
  · exact .inr (congrArg _ (threads_perform hi ha))

end World

/-! ## Traces -/

theorem run_append (w : World) (a b : List Action) : w.run (a ++ b) = (w.run a).run b :=
  List.foldl_append

/-- A transition stands between the actions before it and those behind it. -/
theorem exists_of_mem_trace {w : World} {schedule : List Action} {tr : Transition}
    (h : tr ∈ trace w schedule) : ∃ a action b, schedule = a ++ action :: b
      ∧ tr = ⟨w.run a, action, (w.run a).perform action⟩ := by
  induction schedule generalizing w with
  | nil => simp [trace] at h
  | cons action schedule ih =>
    rcases List.mem_cons.1 h with rfl | h
    · exact ⟨[], action, schedule, rfl, rfl⟩
    · obtain ⟨a, action', b, rfl, rfl⟩ := ih h
      exact ⟨action :: a, action', b, rfl, rfl⟩

/-- Under a schedule an idle thread makes a call in a world and later gets a reply. -/
inductive Serves (w : World) (schedule : List Action) (i : Nat) (start : World) (call : Call)
    (reply : Session.Reply) : Prop where
  | intro {a b c : List Action} {made : Call}
      (hschedule : schedule = a ++ .call i call :: (b ++ .go i :: c))
      (hstart : start = w.run a)
      (hidle : start.threads i = .idle)
      (hlasts : ∀ tr ∈ trace (start.perform (.call i call)) b, tr.before.threads i ≠ .idle)
      (hreply : ((start.perform (.call i call)).run b).threads i
        = .outside (.finish made reply))

/-- A call that is served is not affected by what comes behind. -/
theorem Serves.append {w : World} {schedule : List Action} {i : Nat} {start : World} {call : Call}
    {reply : Session.Reply} (h : Serves w schedule i start call reply) (rest : List Action) :
    Serves w (schedule ++ rest) i start call reply := by
  obtain ⟨rfl, hstart, hidle, hlasts, hreply⟩ := h
  rename_i a b c made
  refine .intro (c := c ++ rest) ?_ hstart hidle hlasts hreply
  simp

end Threads

end SigScan
