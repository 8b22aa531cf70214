/-
SigScan.AddressTable — addresses on first use.

A table ties a registry to the memory and the regions of one module. The first use of
an entry that is not settled runs one pass for all pending entries together; every
pending entry is settled by it, failures included, and later uses are answered from
what was stored.

Main statements: a pass leaves nothing pending (`pending_runPass`), and it is not run
when nothing is pending (`runPass_of_pending_nil`).
-/
import SigScan.Registry
import SigScan.Resolve
import SigScan.Scan.Run

namespace SigScan

/-- A session over one module. -/
structure AddressTable where
  registry : Registry
  memory : Source
  regions : List Region
  config : Scan.Config
  /-- Number of passes so far. -/
  scanCount : Nat

/-- All settled entries by name, those with an address and those without. -/
structure Report where
  resolved : List (String × UInt64)
  failed : List ResolveFailure
deriving DecidableEq, Repr

/-- Whether every entry has an address. -/
def Report.isComplete (r : Report) : Bool :=
  r.failed.isEmpty

namespace AddressTable

/-- A session without entries. -/
def new (memory : Source) (regions : List Region) (config : Scan.Config) : AddressTable :=
  ⟨.empty, memory, regions, config, 0⟩

/-! ## Passes -/

/-- What a scan result means for an entry: a single match is resolved, anything else is a
failure. -/
def outcome (m : Source) (e : Entry) : Scan.Result → Except ResolveFailure UInt64
  | .noMatch => .error (e.failure .noMatch)
  | .unique found => (resolve m found e.signature).mapError e.failure
  | .ambiguous count => .error (e.failure (.ambiguous count))

/-- Scans for all pending entries and settles each of them. -/
def runPass (t : AddressTable) : AddressTable :=
  match t.registry.pending with
  | [] => t
  | pending =>
    let pass := Scan.Pass.read t.memory t.config t.regions (pending.map Entry.signature)
    { t with
      registry := t.registry.settleAll fun e =>
        .ofOutcome (outcome t.memory e (pass.result e.signature))
      scanCount := t.scanCount + 1 }

/-- Scans for all pending entries and settles each of them by what was found under its name,
unless the scan is stopped. A name under which nothing was looked for has no match. -/
def attemptPass (t : AddressTable) : Except Scan.Overrun AddressTable :=
  match t.registry.pending with
  | [] => .ok t
  | pending =>
    let named := pending.map fun e => (e.name, e.signature)
    (Scan.runNamed t.memory t.config t.regions named).map fun found =>
      { t with
        registry := t.registry.settleAll fun e =>
          .ofOutcome (outcome t.memory e ((found.find? e.name).getD .noMatch))
        scanCount := t.scanCount + 1 }

/-! ## Uses -/

/-- The address of a name, after a pass if it is not settled yet. -/
def value (t : AddressTable) (name : String) : Except Error UInt64 × AddressTable :=
  match t.registry.find? name with
  | none => (.error (.unknown name), t)
  | some e =>
    let t' := if e.isSettled then t else t.runPass
    let settled := (t'.registry.find? name).getD e
    match settled.state with
    | .resolved address => (.ok address, t')
    | .failed failure => (.error (.unresolved failure), t')
    | .unresolved => (.error (.unresolved (e.failure .noMatch)), t')

/-- The pointer stored at the address of a name. The address is stored; the pointer is
read anew every time. -/
def readPointer (t : AddressTable) (name : String) : Except Error UInt64 × AddressTable :=
  match t.registry.find? name with
  | none => (.error (.unknown name), t)
  | some e =>
    if e.deref then
      match t.value name with
      | (.error error, t') => (.error error, t')
      | (.ok address, t') => ((t'.memory.readUInt64 address).mapError .readFailed, t')
    else (.error (.notAPointer name), t)

/-- All settled entries. -/
def report (t : AddressTable) : Report where
  resolved := t.registry.all.filterMap fun e =>
    match e.state with
    | .resolved address => some (e.name, address)
    | _ => none
  failed := t.registry.all.filterMap fun e =>
    match e.state with
    | .failed failure => some failure
    | _ => none

/-- Settles every pending entry and reports all. -/
def resolveAll (t : AddressTable) : Report × AddressTable :=
  let t' := t.runPass
  (t'.report, t')

/-- Stores a known address without a scan; false if the entry was settled already. -/
def prime (t : AddressTable) (name : String) (address : UInt64) :
    Except Error Bool × AddressTable :=
  match t.registry.find? name with
  | none => (.error (.unknown name), t)
  | some e =>
    if e.isSettled then (.ok false, t)
    else (.ok true, { t with registry := t.registry.settle name (.resolved address) })

/-! ## What a pass does -/

theorem runPass_of_pending_nil {t : AddressTable} (h : t.registry.pending = []) :
    t.runPass = t := by
  simp [runPass, h]

theorem isSettled_settle_ofOutcome (e : Entry) (o : Except ResolveFailure UInt64) :
    (e.settle (.ofOutcome o)).isSettled = true := by
  unfold Entry.settle
  split
  · assumption
  · cases o <;> rfl

/-- A pass leaves nothing pending. -/
theorem pending_runPass (t : AddressTable) : t.runPass.registry.pending = [] := by
  unfold runPass
  split
  · assumption
  · simp only [Registry.pending, Registry.all, Registry.settleAll, NameTable.values,
      NameTable.map, List.filter_eq_nil_iff, List.map_map, List.mem_map, Function.comp]
    rintro e ⟨p, -, rfl⟩
    simp [isSettled_settle_ofOutcome]

end AddressTable

end SigScan
