/-
SigScan.Proofs.Session.Attempt — calls whose pass is not stopped.

A pass that is carried out by name gives each pending entry the result of its own signature
(`find?_of_runNamed`), because no two entries have one name. So it leads to the table that
`runPass` leads to, or it is stopped for a number that does not fit
(`attemptPass_eq_ok_iff`), and a call is answered as by `step` unless it runs such a pass
(`attempt_eq_ok_iff`).

Over memory that never answers with more than was asked for, and in regions that end within
the address space, no call of a session is stopped, whatever calls came before it
(`attempt_run`).
-/
import SigScan.Proofs.Scan.Overrun
import SigScan.Proofs.Session.History

namespace SigScan

/-! ## Results by name -/

namespace Scan

variable {m : Source} {config : Config} {regions : List Region}
  {named : List (String × Signature)}

/-- A pass by names is stopped when the pass for the signatures is. -/
theorem runNamed_isOk_iff :
    (∃ found, runNamed m config regions named = .ok found) ↔
      named = [] ∨ Fits m config regions (named.map Prod.snd) := by
  rw [runNamed]
  cases h : run m config regions (named.map Prod.snd) with
  | error overrun =>
    simp only [Except.map, reduceCtorEq, exists_false, false_iff]
    intro hgoes
    have hok : run m config regions (named.map Prod.snd) = .ok _ :=
      run_eq_ok_iff.2 ⟨hgoes.imp (by simp) id, rfl⟩
    rw [h] at hok
    contradiction
  | ok results =>
    simp only [Except.map, Except.ok.injEq, exists_eq', true_iff]
    exact (run_eq_ok_iff.1 h).1.imp (by simp) id

/-- Where names differ, each name has the result of its own signature. -/
theorem find?_of_runNamed (hnames : (named.map Prod.fst).Nodup) {found : NameTable Result}
    (h : runNamed m config regions named = .ok found) {name : String} {s : Signature}
    (hmem : (name, s) ∈ named) : found.find? name = some (scanOne m config regions s) := by
  rw [runNamed] at h
  cases hrun : run m config regions (named.map Prod.snd) with
  | error overrun => simp [hrun, Except.map] at h
  | ok results =>
    simp only [hrun, Except.map, Except.ok.injEq] at h
    obtain ⟨-, rfl⟩ := run_eq_ok_iff.1 hrun
    obtain ⟨pass, hpass⟩ : ∃ pass, pass = Pass.read m config regions (named.map Prod.snd) :=
      ⟨_, rfl⟩
    have hzip : (named.map Prod.fst).zip (scan m config regions (named.map Prod.snd)) =
        named.map fun p => (p.1, pass.result p.2) := by
      rw [scan, ← hpass, List.map_map, List.zip_map', Function.comp_def]
    have hfst : (named.map fun p => (p.1, pass.result p.2)).map Prod.fst = named.map Prod.fst := by
      rw [List.map_map]
      rfl
    have hpair : (name, pass.result s) ∈ named.map fun p => (p.1, pass.result p.2) :=
      List.mem_map.2 ⟨(name, s), hmem, rfl⟩
    have hs : s ∈ named.map Prod.snd := List.mem_map.2 ⟨(name, s), hmem, rfl⟩
    rw [← h, hzip, NameTable.find?_ofPairs (hfst ▸ hnames),
      NameTable.lookup_of_mem (hfst ▸ hnames) hpair, hpass, result_read m config regions hs]

end Scan

/-! ## Passes -/

namespace AddressTable

variable {t t' : AddressTable}

/-- The numbers of the next pass fit in 64 bits. -/
def PassFits (t : AddressTable) : Prop :=
  Scan.Fits t.memory t.config t.regions (t.registry.pending.map Entry.signature)

/-- The pass by the names of the pending entries goes on if its numbers fit. -/
theorem runNamed_pending_isOk_iff :
    (∃ found, Scan.runNamed t.memory t.config t.regions
        (t.registry.pending.map fun e => (e.name, e.signature)) = .ok found) ↔
      t.registry.pending = [] ∨ t.PassFits := by
  rw [Scan.runNamed_isOk_iff, List.map_eq_nil_iff, List.map_map]
  rfl

/-- A pass by names that goes on settles each pending entry in the state that it comes to by
itself. -/
theorem settleAll_of_runNamed (h : WellFormed t) {found : NameTable Scan.Result}
    (hrun : Scan.runNamed t.memory t.config t.regions
      (t.registry.pending.map fun e => (e.name, e.signature)) = .ok found) :
    (t.registry.settleAll fun e =>
        .ofOutcome (outcome t.memory e ((found.find? e.name).getD .noMatch))) =
      t.registry.settleAll (Entry.ownState t.memory t.config t.regions) := by
  have hnames : ((t.registry.pending.map fun e => (e.name, e.signature)).map Prod.fst).Nodup := by
    rw [List.map_map]
    exact h.filed.nodup_names_pending
  refine Registry.settleAll_congr ?_
  intro e he
  have hmem : (e.name, e.signature) ∈ t.registry.pending.map fun e => (e.name, e.signature) :=
    List.mem_map.2 ⟨e, he, rfl⟩
  rw [Scan.find?_of_runNamed hnames hrun hmem, Option.getD_some, outcome_scanOne]
  rfl

/-- A pass by names leads where the pass leads, unless a number does not fit. -/
theorem attemptPass_eq_ok_iff (h : WellFormed t) :
    t.attemptPass = .ok t' ↔ (t.registry.pending = [] ∨ t.PassFits) ∧ t' = t.runPass := by
  by_cases hp : t.registry.pending = []
  · simp [attemptPass, runPass_of_pending_nil hp, hp, eq_comm]
  rw [← runNamed_pending_isOk_iff, Session.runPass_eq hp]
  unfold attemptPass
  split
  · next heq => exact absurd heq hp
  · dsimp only
    cases hrun : Scan.runNamed t.memory t.config t.regions
        (t.registry.pending.map fun e => (e.name, e.signature)) with
    | error overrun => simp [Except.map]
    | ok found =>
      simp only [Except.map, Except.ok.injEq, exists_eq', true_and, settleAll_of_runNamed h hrun]
      exact eq_comm

/-- Over memory that never answers with more than was asked for, and in regions that end within
the address space, a pass is not stopped. -/
theorem passFits_of_le_size (h : WellFormed t) (hm : t.memory.Bounded)
    (htotal : Scan.totalLen (t.regions.filter t.config.admits) < UInt64.size)
    (htop : ∀ r ∈ t.regions.filter t.config.admits, r.base.toNat + r.len ≤ UInt64.size) :
    t.PassFits := by
  refine .of_le_size hm htotal htop ?_
  intro s hs
  obtain ⟨e, he, rfl⟩ := List.mem_map.1 hs
  have hfound := h.filed.find?_of_mem_all (List.mem_filter.1 he).1
  obtain ⟨tokens, htokens⟩ := (h.belongs e.name e hfound).isCompiled.exists_tokens
  exact htokens.rawLen_pos

end AddressTable

/-! ## Calls -/

namespace Session

variable {t : AddressTable} {c : Call} {answer : Reply × AddressTable}

/-- A call is answered as ever, unless it runs a pass with a number that does not fit. -/
theorem attempt_eq_ok_iff (h : WellFormed t) :
    attempt t c = .ok answer ↔ (c.Scans t → t.PassFits) ∧ answer = step t c := by
  rw [attempt]
  by_cases hscans : c.Scans t
  · have hcount : (step t c).2.scanCount ≠ t.scanCount := by
      rw [(scanCount_step_of_scans hscans).1]
      omega
    have hpass : ∀ t', t.attemptPass = .ok t' ↔ t.PassFits ∧ t' = t.runPass := by
      intro t'
      rw [AddressTable.attemptPass_eq_ok_iff h]
      simp only [(step_of_scans hscans).1, false_or]
    rw [if_neg hcount]
    simp only [hscans, true_implies]
    cases hrun : t.attemptPass with
    | error overrun =>
      simp only [Except.map, reduceCtorEq, false_iff, not_and]
      intro hfits
      have hok := (hpass _).2 ⟨hfits, rfl⟩
      rw [hrun] at hok
      contradiction
    | ok t' =>
      have hfits := ((hpass t').1 hrun).1
      simp only [Except.map, Except.ok.injEq, hfits, true_and]
      exact eq_comm
  · rw [if_pos (scanCount_step_of_not_scans hscans)]
    simp only [hscans, false_implies, true_and, Except.ok.injEq]
    exact eq_comm

/-- In a session over regions that end within the address space no call is stopped. -/
theorem attempt_run {m : Source} (hm : m.Bounded) {regions : List Region} {config : Scan.Config}
    (htotal : Scan.totalLen (regions.filter config.admits) < UInt64.size)
    (htop : ∀ r ∈ regions.filter config.admits, r.base.toNat + r.len ≤ UInt64.size)
    (calls : List Call) (c : Call) :
    attempt (run (.new m regions config) calls) c =
      .ok (step (run (.new m regions config) calls) c) := by
  have hwell := wellFormed_run m regions config calls
  obtain ⟨moves, hpath⟩ := exists_path_run (.new m regions config) calls
  obtain ⟨hmemory, hconfig, hregions⟩ := hpath.frame
  refine (attempt_eq_ok_iff hwell).2 ⟨fun _ => ?_, rfl⟩
  refine AddressTable.passFits_of_le_size hwell ?_ ?_ ?_
  · rwa [hmemory]
  · rwa [hconfig, hregions]
  · rwa [hconfig, hregions]

end Session

end SigScan
