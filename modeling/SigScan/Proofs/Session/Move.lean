/-
SigScan.Proofs.Session.Move — what can happen to a session.

Whatever a client asks of a session comes down to a few moves: a name that is not there
gets an entry, a pass settles all that is pending, and an entry that is not settled is
primed with an address. What a move does to the entry of a name is said once, in
`Move.find?_apply`. A pass settles each entry in the state that a scan for it alone leads
to (`runPass_eq`). A property that every move keeps holds along every path of moves
(`Path.preserves`).
-/
import SigScan.Session
import SigScan.Proofs.NameTable
import SigScan.Proofs.Scan.Group
import SigScan.Proofs.Signature.Equivalence

namespace SigScan

/-! ## What an entry comes to by itself -/

/-- The state of an entry with an outcome: the address, or a failure of its own. -/
def Entry.stateOf (e : Entry) (o : Except FailureKind UInt64) : EntryState :=
  .ofOutcome (o.mapError e.failure)

/-- The state that a scan for the signature of an entry alone leads to. -/
def Entry.ownState (m : Source) (config : Scan.Config) (regions : List Region) (e : Entry) :
    EntryState :=
  e.stateOf (e.signature.ownOutcome m config regions)

/-- An entry whose outcome is stored has failed only with the kind of that outcome. -/
theorem Entry.failure_of_stateOf {e : Entry} {o : Except FailureKind UInt64} {f : ResolveFailure}
    (h : e.stateOf o = .failed f) : ∃ kind, o = .error kind ∧ f = e.failure kind := by
  unfold stateOf at h
  cases o with
  | ok address => nomatch h
  | error kind => exact ⟨kind, rfl, (EntryState.failed.inj h).symm⟩

/-- What a scan for one signature alone comes to is the outcome of its entry, up to the name in
the failure. -/
theorem AddressTable.outcome_scanOne (m : Source) (config : Scan.Config) (regions : List Region)
    (e : Entry) :
    outcome m e (Scan.scanOne m config regions e.signature) =
      (e.signature.ownOutcome m config regions).mapError e.failure := by
  unfold outcome Signature.ownOutcome
  cases Scan.scanOne m config regions e.signature <;> rfl

theorem Entry.settle_of_not_isSettled {e : Entry} (h : e.isSettled = false) (state : EntryState) :
    e.settle state = { e with state := state } := by
  simp [settle, h]

theorem Entry.isSettled_settle_resolved (e : Entry) (address : UInt64) :
    (e.settle (.resolved address)).isSettled = true :=
  AddressTable.isSettled_settle_ofOutcome e (.ok address)

/-- What an entry comes to by itself does not depend on what is stored in it. -/
theorem Entry.ownState_settle (m : Source) (config : Scan.Config) (regions : List Region)
    (e : Entry) (state : EntryState) :
    (e.settle state).ownState m config regions = e.ownState m config regions := by
  unfold Entry.settle
  split <;> rfl

/-- Only what belongs to pending entries is used to settle a registry. -/
theorem Registry.settleAll_congr {r : Registry} {f g : Entry → EntryState}
    (h : ∀ e ∈ r.pending, f e = g e) : r.settleAll f = r.settleAll g := by
  simp only [settleAll, NameTable.map, mk.injEq, NameTable.mk.injEq]
  refine List.map_congr_left ?_
  intro p hp
  obtain ⟨name, e⟩ := p
  cases hs : e.isSettled with
  | true => simp only [Entry.settle_of_isSettled hs]
  | false =>
    have hpending : e ∈ r.pending := by
      simp only [pending, all, List.mem_filter, hs, Bool.not_false, and_true]
      exact List.mem_map_of_mem hp
    rw [h e hpending]

/-- Registries whose names have the same entries are the same. -/
theorem Registry.eq_of_find? {r r' : Registry} (h : ∀ name, r.find? name = r'.find? name) :
    r = r' := by
  cases r
  cases r'
  exact congrArg mk (NameTable.eq_of_find? h)

namespace Session

/-! ## Moves -/

/-- What can happen to a table. -/
inductive Move where
  | insert (name : String) (signature : Signature) (deref : Bool)
  | pass
  | prime (name : String) (address : UInt64)

namespace Move

/-- The table after a move. -/
def apply (t : AddressTable) : Move → AddressTable
  | insert name s deref =>
    { t with registry := ⟨t.registry.entries.insert name ⟨name, s, deref, .unresolved⟩⟩ }
  | pass => t.runPass
  | prime name address => { t with registry := t.registry.settle name (.resolved address) }

/-- When a move can be made. -/
def Enabled (t : AddressTable) : Move → Prop
  | insert name s _ => t.registry.find? name = none ∧ s.IsCompiled
  | pass => t.registry.pending ≠ []
  | prime name _ => ∃ e, t.registry.find? name = some e ∧ e.isSettled = false

end Move

/-- A list of moves that leads from a table to another. -/
inductive Path : AddressTable → List Move → AddressTable → Prop where
  | nil (t : AddressTable) : Path t [] t
  | cons {t t' : AddressTable} {move : Move} {moves : List Move} :
      move.Enabled t → Path (move.apply t) moves t' → Path t (move :: moves) t'

theorem Path.single {t : AddressTable} {move : Move} (h : move.Enabled t) :
    Path t [move] (move.apply t) :=
  .cons h (.nil _)

theorem Path.eq_of_nil {t t' : AddressTable} (h : Path t [] t') : t' = t := by
  cases h
  rfl

theorem Path.eq_of_single {t t' : AddressTable} {move : Move} (h : Path t [move] t') :
    move.Enabled t ∧ t' = move.apply t := by
  cases h with
  | cons hen hrest => exact ⟨hen, hrest.eq_of_nil⟩

theorem Path.append {t t' t'' : AddressTable} {as bs : List Move} (ha : Path t as t')
    (hb : Path t' bs t'') : Path t (as ++ bs) t'' := by
  induction ha with
  | nil => exact hb
  | cons hen _ ih => exact .cons hen (ih hb)

/-- A property that every enabled move keeps is kept along every path. -/
theorem Path.preserves {P : AddressTable → Prop}
    (hP : ∀ t (move : Move), move.Enabled t → P t → P (move.apply t)) {t t' : AddressTable}
    {moves : List Move} (h : Path t moves t') (ht : P t) : P t' := by
  induction h with
  | nil => exact ht
  | cons hen _ ih => exact ih (hP _ _ hen ht)

/-! ## What a move does -/

/-- A pass settles every entry in the state that it comes to by itself: what else is
pending makes no difference. -/
theorem runPass_eq {t : AddressTable} (h : t.registry.pending ≠ []) :
    t.runPass =
      { t with
        registry := t.registry.settleAll (Entry.ownState t.memory t.config t.regions)
        scanCount := t.scanCount + 1 } := by
  unfold AddressTable.runPass
  split
  · next hp => exact absurd hp h
  · simp only [AddressTable.mk.injEq, and_true]
    refine Registry.settleAll_congr ?_
    intro e he
    rw [Scan.result_read t.memory t.config t.regions (List.mem_map_of_mem he),
      AddressTable.outcome_scanOne]
    rfl

/-- After a pass every entry is settled, those that were pending in the states that they come to
by themselves. -/
theorem find?_runPass (t : AddressTable) (name : String) :
    t.runPass.registry.find? name = (t.registry.find? name).map fun e =>
      e.settle (e.ownState t.memory t.config t.regions) := by
  by_cases h : t.registry.pending = []
  · rw [AddressTable.runPass_of_pending_nil h]
    cases hf : t.registry.find? name with
    | none => rfl
    | some e =>
      have hs : e.isSettled = true := by
        have hall := List.filter_eq_nil_iff.1 h e (NameTable.mem_values_of_find? hf)
        simpa using hall
      rw [Option.map_some, Entry.settle_of_isSettled hs]
  · rw [runPass_eq h]
    exact NameTable.find?_map _ _ name

/-- To settle a name leaves the entries of the other names as they are. -/
theorem find?_settle (r : Registry) (name other : String) (state : EntryState) :
    (r.settle name state).find? other =
      (r.find? other).map fun e => if other = name then e.settle state else e := by
  unfold Registry.settle
  cases hf : r.find? name with
  | none =>
    by_cases ho : other = name
    · simp [ho, hf]
    · simp [ho]
  | some e =>
    rw [Registry.find?, NameTable.find?_insert]
    by_cases ho : other = name
    · simp [ho, hf]
    · simp [ho, Registry.find?]

namespace Move

/-- What a move does to the entry of a name. -/
theorem find?_apply (t : AddressTable) (move : Move) (name : String) :
    (move.apply t).registry.find? name =
      match move with
      | insert n s deref =>
          if name = n then some ⟨n, s, deref, .unresolved⟩ else t.registry.find? name
      | pass => (t.registry.find? name).map fun e =>
          e.settle (e.ownState t.memory t.config t.regions)
      | prime n address => (t.registry.find? name).map fun e =>
          if name = n then e.settle (.resolved address) else e := by
  cases move with
  | insert n s deref => exact NameTable.find?_insert _ n name _
  | pass => exact find?_runPass t name
  | prime n address => exact find?_settle t.registry n name _

/-- No move changes the memory, the configuration or the regions. -/
theorem frame_apply (t : AddressTable) (move : Move) :
    (move.apply t).memory = t.memory ∧ (move.apply t).config = t.config
      ∧ (move.apply t).regions = t.regions := by
  cases move with
  | insert n s deref => exact ⟨rfl, rfl, rfl⟩
  | prime n address => exact ⟨rfl, rfl, rfl⟩
  | pass =>
    simp only [apply, AddressTable.runPass]
    split <;> exact ⟨rfl, rfl, rfl⟩

end Move

end Session

end SigScan
