/-
SigScan.Registry — the entries of a session.

An entry is a named signature with what is known of its address. Once its state is
settled it never changes. A name is registered once; registering it again is accepted
if the signature is equivalent and holds a pointer or not as before, and then gives the
entry that is there.

Main statements: settling never changes a settled entry (`settle_of_isSettled`),
looking up after a registration (`find?_register`), and a refused or repeated
registration changes nothing (`register_existing`).
-/
import SigScan.Error
import SigScan.NameTable
import SigScan.SignatureSet

namespace SigScan

/-- What is known of the address of an entry. -/
inductive EntryState where
  | unresolved
  | resolved (address : UInt64)
  | failed (failure : ResolveFailure)
deriving DecidableEq, Repr

/-- The state that an attempt to resolve leads to. -/
def EntryState.ofOutcome : Except ResolveFailure UInt64 → EntryState
  | .ok address => resolved address
  | .error failure => failed failure

/-- A registered signature. -/
structure Entry where
  name : String
  signature : Signature
  /-- The resolved place holds a pointer to the object. -/
  deref : Bool
  state : EntryState
deriving DecidableEq, Repr

namespace Entry

/-- Whether the state is final. -/
def isSettled (e : Entry) : Bool :=
  match e.state with
  | .unresolved => false
  | _ => true

/-- Sets the state unless it is final. -/
def settle (e : Entry) (state : EntryState) : Entry :=
  if e.isSettled then e else { e with state := state }

/-- A failure of this entry. -/
def failure (e : Entry) (kind : FailureKind) : ResolveFailure :=
  ⟨e.name, e.signature.pattern, kind⟩

theorem settle_of_isSettled {e : Entry} (h : e.isSettled = true) (state : EntryState) :
    e.settle state = e := by
  simp [settle, h]

theorem name_settle (e : Entry) (state : EntryState) : (e.settle state).name = e.name := by
  unfold settle; split <;> rfl

end Entry

/-- Entries by name. -/
structure Registry where
  entries : NameTable Entry
deriving DecidableEq, Repr

namespace Registry

/-- No entries. -/
def empty : Registry := ⟨.empty⟩

/-- The entry of a name. -/
def find? (r : Registry) (name : String) : Option Entry :=
  r.entries.find? name

/-- Whether a new registration says the same as an entry. -/
def agrees (e : Entry) (s : Signature) (deref : Bool) : Bool :=
  e.deref == deref && e.signature.isEquivalent s

/-- Registers a compiled signature: the entry of the name, new or already there. -/
def register (r : Registry) (name : String) (s : Signature) (deref : Bool) :
    Except Error (Entry × Registry) :=
  match r.find? name with
  | some e => if agrees e s deref then .ok (e, r) else .error (.duplicate name)
  | none =>
    let e : Entry := ⟨name, s, deref, .unresolved⟩
    .ok (e, ⟨r.entries.insert name e⟩)

/-- Compiles a pattern and registers it as a place that holds no pointer. -/
def registerPattern (r : Registry) (name pattern : String) (offset : Option UInt32) :
    Except Error (Entry × Registry) :=
  match Signature.compile pattern offset with
  | .error m => .error (.malformed m)
  | .ok s => r.register name s false

/-- Compiles a definition and registers it. -/
def registerDefinition (r : Registry) (d : Definition) : Except Error (Entry × Registry) :=
  match d.compile with
  | .error m => .error (.malformed m)
  | .ok s => r.register d.name s d.deref

/-- Registers definitions one after another up to the first error; those before it stay
registered. -/
def registerAll (r : Registry) : List Definition → Except Error (List Entry) × Registry
  | [] => (.ok [], r)
  | d :: ds =>
    match r.registerDefinition d with
    | .error e => (.error e, r)
    | .ok (e, r') =>
      let (rest, r'') := r'.registerAll ds
      (rest.map (e :: ·), r'')

/-- All entries, by name. -/
def all (r : Registry) : List Entry :=
  r.entries.values

/-- The entries that are not settled, by name. -/
def pending (r : Registry) : List Entry :=
  r.all.filter fun e => !e.isSettled

/-- Number of entries. -/
def size (r : Registry) : Nat :=
  r.entries.size

/-- Settles every pending entry in the state that belongs to it. -/
def settleAll (r : Registry) (state : Entry → EntryState) : Registry :=
  ⟨r.entries.map fun e => e.settle (state e)⟩

/-- Settles the entry of a name. -/
def settle (r : Registry) (name : String) (state : EntryState) : Registry :=
  match r.find? name with
  | none => r
  | some e => ⟨r.entries.insert name (e.settle state)⟩

/-! ## Registration -/

/-- A name that is there keeps its entry, and the registry stays as it is. -/
theorem register_existing {r : Registry} {name : String} {e : Entry} (h : r.find? name = some e)
    (s : Signature) (deref : Bool) :
    r.register name s deref =
      if agrees e s deref then .ok (e, r) else .error (.duplicate name) := by
  simp [register, h]

/-- After a registration its name has the entry that was returned, and the other names
have theirs. -/
theorem find?_register {r r' : Registry} {name : String} {s : Signature} {deref : Bool} {e : Entry}
    (h : r.register name s deref = .ok (e, r')) (other : String) :
    r'.find? other = if other = name then some e else r.find? other := by
  cases hf : r.find? name with
  | some e' =>
    rw [register_existing hf] at h
    split at h
    · obtain ⟨rfl, rfl⟩ : e' = e ∧ r = r' := by simpa using h
      by_cases ho : other = name
      · rw [if_pos ho, ho, hf]
      · rw [if_neg ho]
    · exact absurd h (by simp)
  | none =>
    simp only [register, hf, Except.ok.injEq, Prod.mk.injEq] at h
    obtain ⟨rfl, rfl⟩ := h
    exact NameTable.find?_insert r.entries name other _

end Registry

end SigScan
