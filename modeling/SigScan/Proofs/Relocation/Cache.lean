/-
SigScan.Proofs.Relocation.Cache — a cache against a new scan of the moved module.

Addresses are cached as offsets from the base of a module. Where the module is moved with
its base, the cached offsets lead to the addresses that a scan of the moved module finds
(`find?_primed`), and an address below the base, which no offset can express, is left to the
scan. `relocates` says this for every snapshot that can be moved, together with what a scan
itself gives there.
-/
import SigScan.Proofs.Relocation.Session
import SigScan.Proofs.Session.Cached

namespace SigScan

namespace Session

/-! ## Registrations -/

/-- The call registers definitions. -/
def Call.Registers : Call → Prop
  | register _ _ _ => True
  | registerDefinition _ => True
  | registerSet _ => True
  | _ => False

section

variable {t : AddressTable} {c : Call} {calls : List Call} {d : UInt64}

theorem step_of_registers (t : AddressTable) (h : c.Registers) :
    (step t c).2 = { t with registry := (t.registry.registerAll c.definitions).2 } := by
  cases c with
  | register name pattern offset => exact snd_step_of_definitions t (by simp [Call.definitions])
  | registerDefinition definition => exact snd_step_of_definitions t (by simp [Call.definitions])
  | registerSet set => rfl
  | _ => exact h.elim

theorem Call.shift_of_registers (h : c.Registers) : c.shift d = c := by
  cases c <;> first | rfl | exact h.elim

/-- Registrations run no pass and settle nothing. -/
theorem run_of_registers (h : ∀ c ∈ calls, c.Registers) (hfresh : t.registry.Fresh) :
    (run t calls).registry.Fresh ∧ (run t calls).scanCount = t.scanCount := by
  induction calls generalizing t with
  | nil => exact ⟨hfresh, rfl⟩
  | cons c calls ih =>
    have hstep := step_of_registers t (h c List.mem_cons_self)
    have hfresh' : (step t c).2.registry.Fresh := by
      rw [hstep]
      exact Registry.fresh_registerAll hfresh c.definitions
    have hrest := ih (fun c' hc' => h c' (List.mem_cons_of_mem _ hc')) hfresh'
    rwa [show (step t c).2.scanCount = t.scanCount by rw [hstep]] at hrest

end

end Session

/-! ## The cache of the module that was moved -/

/-- How a session that was primed compares with the session that the cache was taken from,
at `base`, and with a scan of the module that was moved by `d`. -/
structure PrimedLike (base d : UInt64) (old rescanned primed : AddressTable) : Prop where
  /-- No pass was run. -/
  scanCount_eq : primed.scanCount = 0
  /-- The same names have entries. -/
  names : ∀ name, primed.registry.find? name = none ↔ old.registry.find? name = none
  /-- An address at the base or behind it is primed, moved, which is what a scan gives. -/
  resolved : ∀ name e address, old.registry.find? name = some e → e.state = .resolved address →
    base ≤ address → ∃ e', primed.registry.find? name = some e'
      ∧ rescanned.registry.find? name = some e' ∧ e'.state = .resolved (address + d)
  /-- Every other entry is left pending. -/
  pending : ∀ name e, old.registry.find? name = some e →
    (∀ address, e.state = .resolved address → address < base) →
    ∃ e', primed.registry.find? name = some e' ∧ e'.state = .unresolved

namespace AddressCache

section

variable {base d : UInt64} {fresh : AddressTable}

theorem offset?_eq_none {e : Entry} (h : ∀ address, e.state = .resolved address → address < base) :
    offset? base e = none := by
  unfold offset?
  split
  · next address hs => exact if_neg (UInt64.not_le.2 (h address hs))
  · rfl

theorem offset?_of_le {e : Entry} {address : UInt64} (hs : e.state = .resolved address)
    (hle : base ≤ address) : offset? base e = some (address - base) := by
  unfold offset?
  rw [hs]
  exact if_pos hle

/-- A cached offset leads to the moved address. -/
theorem place_sub (base d address : UInt64) :
    place (base + d) (address - base) = address + d := by
  unfold place
  grind

/-- A fresh entry after a pass, and after a cache of that pass was applied to it. -/
theorem find?_primed (hwell : WellFormed fresh.runPass) (version : String)
    (createdAt : Instant) (base' : UInt64) (t : AddressTable) (name : String) :
    ((capture version createdAt fresh.runPass.registry base).apply t base').2.registry.find? name =
      (t.registry.find? name).map fun e =>
        match (fresh.runPass.registry.find? name).bind (offset? base) with
        | some offset => e.settle (.resolved (place base' offset))
        | none => e := by
  have hfind := find?_apply (capture version createdAt fresh.runPass.registry base) t base' name
  rw [find?_capture hwell] at hfind
  exact hfind

/-- The cache of a pass over a module, applied to the same registrations over the moved
module. -/
theorem primedLike_apply (hmovable : fresh.Movable d) (hfresh : fresh.registry.Fresh)
    (hcount : fresh.scanCount = 0) (hwell : WellFormed fresh.runPass) (version : String)
    (createdAt : Instant) (base : UInt64) :
    PrimedLike base d fresh.runPass (fresh.shift d).runPass
      ((capture version createdAt fresh.runPass.registry base).apply (fresh.shift d)
        (base + d)).2 := by
  have hfind := @find?_primed base fresh hwell version createdAt (base + d) (fresh.shift d)
  have hpass := Session.find?_runPass fresh
  have hshift := Registry.find?_shift d fresh.registry
  -- An entry of the moved session is the entry itself, since it has no address yet.
  have hsame : ∀ name e, fresh.registry.find? name = some e →
      (fresh.shift d).registry.find? name = some e := by
    intro name e hf
    have he : e.shift d = e := by
      rw [Entry.shift, hfresh name e hf]
      simp only [EntryState.shift, ← hfresh name e hf]
    rw [AddressTable.shift, hshift, hf, Option.map_some, he]
  refine ⟨?_, ?_, ?_, ?_⟩
  · rw [apply_eq]
    exact hcount
  · intro name
    rw [hfind, hpass]
    simp [AddressTable.shift, hshift]
  · intro name e address hf hs hle
    obtain ⟨e₀, hf₀, rfl⟩ := Option.map_eq_some_iff.1 ((hpass name).symm.trans hf)
    have hunsettled := hfresh.isSettled_eq_false hf₀
    refine ⟨e₀.settle (.resolved (address + d)), ?_, ?_, ?_⟩
    · rw [hfind, hf, Option.bind_some, offset?_of_le hs hle, hsame name e₀ hf₀, Option.map_some,
        ← place_sub base d address]
    · rw [AddressTable.runPass_shift hmovable, AddressTable.shift, Registry.find?_shift, hf,
        Option.map_some]
      rw [Entry.settle_of_not_isSettled hunsettled] at hs ⊢
      simp only at hs
      rw [Entry.settle_of_not_isSettled hunsettled, Entry.shift, hs]
      rfl
    · rw [Entry.settle_of_not_isSettled hunsettled]
  · intro name e hf hbelow
    obtain ⟨e₀, hf₀, rfl⟩ := Option.map_eq_some_iff.1 ((hpass name).symm.trans hf)
    refine ⟨e₀, ?_, hfresh name e₀ hf₀⟩
    rw [hfind, hf, Option.bind_some, offset?_eq_none hbelow, hsame name e₀ hf₀, Option.map_some]

end

end AddressCache

namespace Session

/-- How sessions over a snapshot that was moved by `d` go. -/
structure Relocates (m : Snapshot) (d : UInt64) (config : Scan.Config) : Prop where
  /-- Whatever is called, the entries of the moved session are the entries, moved. -/
  moved : ∀ calls,
    run (.new (m.shift d).source (m.shift d).regions config) (calls.map (Call.shift d)) =
      (run (.new m.source m.regions config) calls).shift d
  /-- A cache of all registered entries, taken at any base, primes the same registrations
  over the moved snapshot with what a scan gives there. -/
  cached : ∀ calls version createdAt base, (∀ c ∈ calls, c.Registers) →
    PrimedLike base d (run (.new m.source m.regions config) (calls ++ [.resolveAll]))
      (run (.new (m.shift d).source (m.shift d).regions config) (calls ++ [.resolveAll]))
      ((AddressCache.capture version createdAt
          (run (.new m.source m.regions config) (calls ++ [.resolveAll])).registry base).apply
        (run (.new (m.shift d).source (m.shift d).regions config) calls) (base + d)).2

/-- Where no segment reaches the top of the address space, before or after the move, the
sessions over a snapshot relocate with it. -/
theorem relocates {m : Snapshot} {d : UInt64} (h : m.Movable d) (config : Scan.Config) :
    Relocates m d config := by
  have hmovable : (AddressTable.new m.source m.regions config).Movable d :=
    fun r hr => Snapshot.movable_of_mem_regions h hr
  have hmoved : ∀ calls, run (.new (m.shift d).source (m.shift d).regions config)
      (calls.map (Call.shift d)) = (run (.new m.source m.regions config) calls).shift d := by
    intro calls
    rw [← AddressTable.new_shift h]
    exact run_shift hmovable calls
  refine ⟨hmoved, fun calls version createdAt base hcalls => ?_⟩
  obtain ⟨hfresh, hcount⟩ := run_of_registers (t := .new m.source m.regions config) hcalls
    Registry.fresh_empty
  have hsame : calls.map (Call.shift d) = calls :=
    (List.map_congr_left fun c hc => Call.shift_of_registers (hcalls c hc)).trans
      (List.map_id calls)
  have hfreshMoved := hmoved calls
  rw [hsame] at hfreshMoved
  have hwell := wellFormed_run m.source m.regions config (calls ++ [.resolveAll])
  rw [run_append] at hwell
  rw [run_append, run_append, hfreshMoved]
  refine AddressCache.primedLike_apply ?_ hfresh hcount hwell version createdAt base
  exact movable_run hmovable calls

/-- A call of the address one byte behind it, and two bytes that stand there. -/
def callSnapshot : Snapshot := .ofDump ⟨#[0xE8, 1, 0, 0, 0, 0xAA, 0xBB]⟩ 0x1000

def callRegistrations : List Call :=
  [.register "byte" "AA BB" none, .register "call" "E8 ?? ?? ?? ?? AA" none]

def byteEntry : Entry :=
  ⟨"byte", ⟨"AA BB", [⟨0xBBAA, 0xFFFF⟩], 2, 0, .direct, 0, 0xAA⟩, false, .resolved 0x1005⟩

def callEntry : Entry :=
  ⟨"call", ⟨"E8 ?? ?? ?? ?? AA", [⟨0xAA00000000E8, 0xFF00000000FF⟩], 6, 1, .nearCallOrJump, 0,
    0xE8⟩, false, .resolved 0x1006⟩

/-- Counted from the target of the call, the target is cached and the bytes in front of it
are not. -/
theorem relocates_callSnapshot :
    callSnapshot.Movable 0x2000 ∧
      ∃ call byte : Entry, call.state = .resolved 0x3006 ∧ byte.state = .unresolved
        ∧ (run (.new (callSnapshot.shift 0x2000).source (callSnapshot.shift 0x2000).regions
            ⟨4, false⟩) (callRegistrations ++ [.resolveAll])).registry.find? "call" = some call
        ∧ ((AddressCache.capture "1" { seconds := 0 }
            (run (.new callSnapshot.source callSnapshot.regions ⟨4, false⟩)
              (callRegistrations ++ [.resolveAll])).registry 0x1006).apply
            (run (.new (callSnapshot.shift 0x2000).source (callSnapshot.shift 0x2000).regions
              ⟨4, false⟩) callRegistrations) (0x1006 + 0x2000)).2.registry.find? "byte" =
          some byte := by
  have hmovable : callSnapshot.Movable 0x2000 := by
    intro s hs
    obtain rfl := List.mem_singleton.1 hs
    exact ⟨by decide +kernel, by decide +kernel⟩
  have hregisters : ∀ c ∈ callRegistrations, c.Registers := by
    intro c hc
    simp [callRegistrations] at hc
    rcases hc with rfl | rfl <;> trivial
  have hprimed := (relocates hmovable ⟨4, false⟩).cached callRegistrations "1" { seconds := 0 }
    0x1006 hregisters
  obtain ⟨call, -, hscanned, hcall⟩ :=
    hprimed.resolved "call" callEntry 0x1006 (by decide +kernel) rfl (by decide)
  have hbelow : ∀ address, byteEntry.state = .resolved address → address < 0x1006 := by
    intro address h
    obtain rfl := EntryState.resolved.inj h
    decide
  obtain ⟨byte, hfound, hbyte⟩ := hprimed.pending "byte" byteEntry (by decide +kernel) hbelow
  exact ⟨hmovable, call, byte, hcall, hbyte, hscanned, hfound⟩

end Session

end SigScan
