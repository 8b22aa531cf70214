/-
SigScan.Session — the calls of a session as data.

Whatever a client does to an address table is a call with a reply. A session is the
list of its calls, run one after another from a table without entries.

Main statements: a session is run piece by piece (`run_append`).
-/
import SigScan.AddressCache

namespace SigScan.Session

/-- What a client may ask of a table. -/
inductive Call where
  | register (name pattern : String) (offset : Option UInt32)
  | registerDefinition (definition : Definition)
  | registerSet (set : SignatureSet)
  | lookup (name : String)
  | pending
  | entries
  | value (name : String)
  | readPointer (name : String)
  | prime (name : String) (address : UInt64)
  | resolveAll
  | applyCache (cache : AddressCache) (base : UInt64)

/-- What the table answers. -/
inductive Reply where
  | entry (result : Except Error Entry)
  | registered (result : Except Error (List Entry))
  | found (entry : Option Entry)
  | listed (entries : List Entry)
  | address (result : Except Error UInt64)
  | primed (result : Except Error Bool)
  | report (report : Report)
  | count (primed : Nat)

/-- The reply to a registration: on an error the table stays as it is. -/
def registered (t : AddressTable) :
    Except Error (Entry × Registry) → Reply × AddressTable
  | .error e => (.entry (.error e), t)
  | .ok (entry, registry) => (.entry (.ok entry), { t with registry := registry })

/-- Answers one call. -/
def step (t : AddressTable) : Call → Reply × AddressTable
  | .register name pattern offset =>
    registered t (t.registry.registerPattern name pattern offset)
  | .registerDefinition d => registered t (t.registry.registerDefinition d)
  | .registerSet set =>
    let (result, registry) := t.registry.registerAll set.signatures
    (.registered result, { t with registry := registry })
  | .lookup name => (.found (t.registry.find? name), t)
  | .pending => (.listed t.registry.pending, t)
  | .entries => (.listed t.registry.all, t)
  | .value name =>
    let (result, t') := t.value name
    (.address result, t')
  | .readPointer name =>
    let (result, t') := t.readPointer name
    (.address result, t')
  | .prime name address =>
    let (result, t') := t.prime name address
    (.primed result, t')
  | .resolveAll =>
    let (report, t') := t.resolveAll
    (.report report, t')
  | .applyCache cache base =>
    let (primed, t') := cache.apply t base
    (.count primed, t')

/-- Answers one call, unless it runs a pass that is stopped. A call runs one pass at most, on
the table as it finds it. -/
def attempt (t : AddressTable) (c : Call) : Except Scan.Overrun (Reply × AddressTable) :=
  let answer := step t c
  if answer.2.scanCount = t.scanCount then .ok answer
  else t.attemptPass.map fun _ => answer

/-- The table after a list of calls. -/
def run (t : AddressTable) (calls : List Call) : AddressTable :=
  calls.foldl (fun t call => (step t call).2) t

theorem run_append (t : AddressTable) (a b : List Call) : run t (a ++ b) = run (run t a) b :=
  List.foldl_append

end SigScan.Session
