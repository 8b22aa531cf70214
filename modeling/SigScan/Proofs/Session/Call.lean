/-
SigScan.Proofs.Session.Call — calls as paths of moves.

A call of a session takes a path of moves (`exists_path_step`), and `Fits` says which: one
pass if the call scans and none otherwise, a priming only where the call primes with
success, and a new entry only for the first definition of its name. A run is the path of
its calls (`exists_path_run`).
-/
import SigScan.Proofs.Session.Move

namespace SigScan.Registry

/-! ## Registries with more entries -/

/-- Entries may be added; those that are there stay as they are. -/
def Extends (r r' : Registry) : Prop :=
  ∀ name e, r.find? name = some e → r'.find? name = some e

section

variable {r r' r'' : Registry}

theorem Extends.refl (r : Registry) : r.Extends r := fun _ _ h => h

theorem Extends.trans (h : r.Extends r') (h' : r'.Extends r'') : r.Extends r'' :=
  fun name e hf => h' name e (h name e hf)

/-- A registration takes no entry away and changes none. -/
theorem extends_register {name : String} {s : Signature} {deref : Bool} {e : Entry}
    (h : r.register name s deref = .ok (e, r')) : r.Extends r' := by
  intro other e' hf
  rw [find?_register h]
  split
  · next heq =>
    rw [heq] at hf
    rw [register_existing hf] at h
    split at h
    · obtain ⟨rfl, -⟩ := Prod.mk.inj (Except.ok.inj h)
      rfl
    · simp at h
  · exact hf

end

end SigScan.Registry

namespace SigScan.Session

/-! ## What a call asks for -/

namespace Call

/-- The definitions that a call registers, in order. -/
def definitions : Call → List Definition
  | register name pattern offset => [⟨name, pattern, offset, false⟩]
  | registerDefinition d => [d]
  | registerSet set => set.signatures
  | _ => []

/-- The call needs the address of an entry that is not settled, or of all of them. -/
def Scans (t : AddressTable) : Call → Prop
  | value name => ∃ e, t.registry.find? name = some e ∧ e.isSettled = false
  | readPointer name =>
    ∃ e, t.registry.find? name = some e ∧ e.deref = true ∧ e.isSettled = false
  | resolveAll => t.registry.pending ≠ []
  | _ => False

/-- The call primes the entry of a name with success. A cache primes the names that it holds
one after another. -/
def Primes (t : AddressTable) (name : String) : Call → Prop
  | prime n address => n = name ∧ (t.prime n address).1 = .ok true
  | applyCache cache base =>
    ∃ before offset after, cache.addresses.pairs = before ++ (name, offset) :: after
      ∧ ((AddressCache.primeAll base t before).2.prime name (AddressCache.place base offset)).1 =
        .ok true
  | _ => False

end Call

/-- The moves that a call may take. -/
structure Fits (t : AddressTable) (c : Call) (moves : List Move) : Prop where
  pass_of_scans : c.Scans t → moves = [.pass]
  scans_of_pass : .pass ∈ moves → c.Scans t
  primes : ∀ name address, .prime name address ∈ moves → c.Primes t name
  defines : ∀ name s deref, .insert name s deref ∈ moves →
    ∃ d, c.definitions.find? (fun d => d.name == name) = some d ∧ d.compile = .ok s
      ∧ d.deref = deref

section

variable {t : AddressTable} {c : Call} {moves : List Move}

theorem Fits.nil (h : ¬ c.Scans t) : Fits t c [] where
  pass_of_scans hs := absurd hs h
  scans_of_pass hm := by simp at hm
  primes _ _ hm := by simp at hm
  defines _ _ _ hm := by simp at hm

theorem Fits.pass (h : c.Scans t) : Fits t c [.pass] where
  pass_of_scans _ := rfl
  scans_of_pass _ := h
  primes _ _ hm := by simp at hm
  defines _ _ _ hm := by simp at hm

/-! ## Registrations -/

theorem register_of_registerDefinition {r r' : Registry} {d : Definition} {e : Entry}
    (h : r.registerDefinition d = .ok (e, r')) :
    ∃ s, d.compile = .ok s ∧ r.register d.name s d.deref = .ok (e, r') := by
  unfold Registry.registerDefinition at h
  cases hc : d.compile with
  | error m => simp [hc] at h
  | ok s => exact ⟨s, rfl, by simpa [hc] using h⟩

theorem extends_registerDefinition {r r' : Registry} {d : Definition} {e : Entry}
    (h : r.registerDefinition d = .ok (e, r')) : r.Extends r' := by
  obtain ⟨s, -, hreg⟩ := register_of_registerDefinition h
  exact Registry.extends_register hreg

/-- A registration makes an entry if its name is not there, and is no move at all if it is. -/
theorem path_registerDefinition {d : Definition} {e : Entry} {r : Registry}
    (h : t.registry.registerDefinition d = .ok (e, r)) :
    ∃ moves, Path t moves { t with registry := r } ∧
      ∀ move ∈ moves, ∃ s, t.registry.find? d.name = none ∧ d.compile = .ok s
        ∧ move = .insert d.name s d.deref := by
  obtain ⟨s, hc, hreg⟩ := register_of_registerDefinition h
  cases hf : t.registry.find? d.name with
  | some e' =>
    rw [Registry.register_existing hf] at hreg
    split at hreg
    · obtain ⟨-, rfl⟩ := Prod.mk.inj (Except.ok.inj hreg)
      exact ⟨[], .nil t, by simp⟩
    · simp at hreg
  | none =>
    simp only [Registry.register, hf, Except.ok.injEq, Prod.mk.injEq] at hreg
    obtain ⟨-, rfl⟩ := hreg
    have hen : (Move.insert d.name s d.deref).Enabled t := ⟨hf, d.pattern, d.offset, hc⟩
    refine ⟨_, .single hen, fun move hm => ⟨s, rfl, hc, ?_⟩⟩
    simpa using hm

/-- Registering a list of definitions makes entries only for the first of each name. -/
theorem path_registerAll (t : AddressTable) (ds : List Definition) :
    ∃ moves, Path t moves { t with registry := (t.registry.registerAll ds).2 } ∧
      ∀ move ∈ moves, ∃ d s, t.registry.find? d.name = none
        ∧ ds.find? (fun d' => d'.name == d.name) = some d ∧ d.compile = .ok s
        ∧ move = .insert d.name s d.deref := by
  induction ds generalizing t with
  | nil => exact ⟨[], .nil t, by simp⟩
  | cons d ds ih =>
    rw [Registry.registerAll]
    cases hr : t.registry.registerDefinition d with
    | error e => exact ⟨[], .nil t, by simp⟩
    | ok p =>
      obtain ⟨e, r⟩ := p
      obtain ⟨as, ha, hfirst⟩ := path_registerDefinition hr
      obtain ⟨bs, hb, hrest⟩ := ih { t with registry := r }
      refine ⟨as ++ bs, ha.append hb, ?_⟩
      intro move hm
      rcases List.mem_append.1 hm with hm | hm
      · obtain ⟨s, hf, hc, rfl⟩ := hfirst move hm
        exact ⟨d, s, hf, by simp, hc, rfl⟩
      · obtain ⟨d', s, hf, hfind, hc, rfl⟩ := hrest move hm
        -- The name of `d` is there by now, so a later new entry has another name.
        obtain ⟨_, -, hreg⟩ := register_of_registerDefinition hr
        rw [Registry.find?_register hreg] at hf
        split at hf
        · simp at hf
        · next hne =>
          have hbeq : (d.name == d'.name) = false := by simpa using fun h => hne h.symm
          exact ⟨d', s, hf, by rw [List.find?_cons, hbeq, hfind], hc, rfl⟩

theorem snd_registered (t : AddressTable) (d : Definition) :
    (registered t (t.registry.registerDefinition d)).2 =
      { t with registry := (t.registry.registerAll [d]).2 } := by
  rw [Registry.registerAll]
  cases t.registry.registerDefinition d <;> rfl

/-- A call that has definitions registers them one after another, and does nothing else. -/
theorem snd_step_of_definitions (t : AddressTable) {c : Call} (h : c.definitions ≠ []) :
    (step t c).2 = { t with registry := (t.registry.registerAll c.definitions).2 } := by
  cases c with
  | register name pattern offset => exact snd_registered t ⟨name, pattern, offset, false⟩
  | registerDefinition d => exact snd_registered t d
  | registerSet set => rfl
  | _ => exact absurd rfl h

theorem Fits.of_inserts (hscans : ¬ c.Scans t)
    (h : ∀ move ∈ moves, ∃ d s, c.definitions.find? (fun d' => d'.name == d.name) = some d
      ∧ d.compile = .ok s ∧ move = .insert d.name s d.deref) : Fits t c moves where
  pass_of_scans hs := absurd hs hscans
  scans_of_pass hm := by
    obtain ⟨d, s, -, -, heq⟩ := h _ hm
    simp at heq
  primes _ _ hm := by
    obtain ⟨d, s, -, -, heq⟩ := h _ hm
    simp at heq
  defines name s deref hm := by
    obtain ⟨d, s', hfind, hc, heq⟩ := h _ hm
    obtain ⟨rfl, rfl, rfl⟩ := Move.insert.inj heq
    exact ⟨d, hfind, hc, rfl⟩

theorem exists_path_definitions (hscans : ¬ c.Scans t)
    (h : (step t c).2 = { t with registry := (t.registry.registerAll c.definitions).2 }) :
    ∃ moves, Path t moves (step t c).2 ∧ Fits t c moves := by
  obtain ⟨moves, hpath, hmoves⟩ := path_registerAll t c.definitions
  refine ⟨moves, h ▸ hpath, .of_inserts hscans ?_⟩
  intro move hm
  obtain ⟨d, s, -, hfind, hc, heq⟩ := hmoves move hm
  exact ⟨d, s, hfind, hc, heq⟩

/-! ## Uses -/

/-- Asking for an address makes a pass exactly if the entry is there and not settled. -/
theorem snd_value (t : AddressTable) (name : String) :
    (t.value name).2 = match t.registry.find? name with
      | none => t
      | some e => if e.isSettled then t else t.runPass := by
  unfold AddressTable.value
  cases t.registry.find? name with
  | none => rfl
  | some e =>
    dsimp only
    split <;> rfl

theorem snd_readPointer (t : AddressTable) (name : String) :
    (t.readPointer name).2 = match t.registry.find? name with
      | none => t
      | some e => if e.deref then (t.value name).2 else t := by
  unfold AddressTable.readPointer
  cases t.registry.find? name with
  | none => rfl
  | some e =>
    dsimp only
    by_cases hd : e.deref = true
    · rw [if_pos hd, if_pos hd]
      obtain ⟨result, t'⟩ := t.value name
      cases result <;> rfl
    · rw [if_neg hd, if_neg hd]

/-- An entry is primed with success only if it is there and not settled; otherwise the table
stays as it is. -/
theorem prime_cases (t : AddressTable) (name : String) (address : UInt64) :
    (t.prime name address).2 = t ∨
      (Move.prime name address).Enabled t ∧
        t.prime name address = (.ok true, (Move.prime name address).apply t) := by
  unfold AddressTable.prime
  cases hf : t.registry.find? name with
  | none => exact .inl rfl
  | some e =>
    cases hs : e.isSettled with
    | true => exact .inl (by simp [hs])
    | false => exact .inr ⟨⟨e, hf, hs⟩, by simp [hs, Move.apply]⟩

theorem primeAll_cons (base : UInt64) (t : AddressTable) (name : String) (offset : UInt64)
    (rest : List (String × UInt64)) :
    (AddressCache.primeAll base t ((name, offset) :: rest)).2 =
      (AddressCache.primeAll base (t.prime name (AddressCache.place base offset)).2 rest).2 := by
  rw [AddressCache.primeAll]
  split
  · next t' hp => rw [hp]
  · next result t' _ hp => rw [hp]

/-- A cache primes its names one after another, each in the table that those before it left. -/
theorem path_primeAll (base : UInt64) (t : AddressTable) (pairs : List (String × UInt64)) :
    ∃ moves, Path t moves (AddressCache.primeAll base t pairs).2 ∧
      ∀ move ∈ moves, ∃ before name offset after, pairs = before ++ (name, offset) :: after
        ∧ move = .prime name (AddressCache.place base offset)
        ∧ ((AddressCache.primeAll base t before).2.prime name
            (AddressCache.place base offset)).1 = .ok true := by
  induction pairs generalizing t with
  | nil => exact ⟨[], .nil t, by simp⟩
  | cons p rest ih =>
    obtain ⟨name, offset⟩ := p
    rw [primeAll_cons]
    obtain ⟨moves, hpath, hmoves⟩ := ih (t.prime name (AddressCache.place base offset)).2
    have hlater : ∀ move ∈ moves, ∃ before n o after,
        (name, offset) :: rest = before ++ (n, o) :: after
          ∧ move = .prime n (AddressCache.place base o)
          ∧ ((AddressCache.primeAll base t before).2.prime n (AddressCache.place base o)).1 =
            .ok true := by
      intro move hm
      obtain ⟨before, n, o, after, rfl, rfl, hok⟩ := hmoves move hm
      refine ⟨(name, offset) :: before, n, o, after, rfl, rfl, ?_⟩
      rw [primeAll_cons]
      exact hok
    rcases prime_cases t name (AddressCache.place base offset) with hsame | ⟨hen, hprime⟩
    · rw [hsame] at hpath
      exact ⟨moves, by rwa [hsame], hlater⟩
    · rw [hprime] at hpath
      refine ⟨_, .cons hen (by rwa [hprime]), ?_⟩
      intro move hm
      rcases List.mem_cons.1 hm with rfl | hm
      · exact ⟨[], name, offset, rest, rfl, rfl, by simp [AddressCache.primeAll, hprime]⟩
      · exact hlater move hm

/-! ## Every call is a path -/

theorem pending_ne_nil {r : Registry} {name : String} {e : Entry} (h : r.find? name = some e)
    (hs : e.isSettled = false) : r.pending ≠ [] := by
  have hmem : e ∈ r.pending := by
    simp only [Registry.pending, Registry.all, List.mem_filter, hs, Bool.not_false, and_true]
    exact NameTable.mem_values_of_find? h
  exact List.ne_nil_of_mem hmem

/-- A call that makes a pass if it scans and nothing else takes a path that fits it. -/
theorem path_pass_of_scans {t' : AddressTable} (hen : c.Scans t → t.registry.pending ≠ [])
    (hscan : c.Scans t → t' = t.runPass) (hkeep : ¬ c.Scans t → t' = t) :
    ∃ moves, Path t moves t' ∧ Fits t c moves := by
  by_cases h : c.Scans t
  · exact ⟨[.pass], hscan h ▸ Path.single (hen h), .pass h⟩
  · exact ⟨[], hkeep h ▸ .nil t, .nil h⟩

theorem exists_path_value (t : AddressTable) (name : String) :
    ∃ moves, Path t moves (t.value name).2 ∧ Fits t (.value name) moves := by
  rw [snd_value]
  refine path_pass_of_scans ?_ ?_ ?_
  · rintro ⟨e, hf, hs⟩
    exact pending_ne_nil hf hs
  · rintro ⟨e, hf, hs⟩
    simp [hf, hs]
  · intro h
    cases hf : t.registry.find? name with
    | none => rfl
    | some e =>
      have hs : e.isSettled = true := by
        simpa using fun hs => h ⟨e, hf, hs⟩
      simp [hs]

theorem exists_path_readPointer (t : AddressTable) (name : String) :
    ∃ moves, Path t moves (t.readPointer name).2 ∧ Fits t (.readPointer name) moves := by
  rw [snd_readPointer, snd_value]
  refine path_pass_of_scans ?_ ?_ ?_
  · rintro ⟨e, hf, -, hs⟩
    exact pending_ne_nil hf hs
  · rintro ⟨e, hf, hd, hs⟩
    simp [hf, hd, hs]
  · intro h
    cases hf : t.registry.find? name with
    | none => rfl
    | some e =>
      have hs : e.deref = true → e.isSettled = true := by
        intro hd
        simpa using fun hs => h ⟨e, hf, hd, hs⟩
      by_cases hd : e.deref = true
      · simp [hd, hs hd]
      · simp [hd]

theorem exists_path_resolveAll (t : AddressTable) :
    ∃ moves, Path t moves t.resolveAll.2 ∧ Fits t .resolveAll moves := by
  refine path_pass_of_scans (fun h => h) (fun _ => rfl) ?_
  intro h
  exact AddressTable.runPass_of_pending_nil (Decidable.of_not_not h)

theorem Fits.of_primes (hscans : ¬ c.Scans t)
    (h : ∀ move ∈ moves, ∃ name address, move = .prime name address ∧ c.Primes t name) :
    Fits t c moves where
  pass_of_scans hs := absurd hs hscans
  scans_of_pass hm := by
    obtain ⟨name, address, heq, -⟩ := h _ hm
    simp at heq
  primes _ _ hm := by
    obtain ⟨name, address, heq, hprimes⟩ := h _ hm
    obtain ⟨rfl, -⟩ := Move.prime.inj heq
    exact hprimes
  defines _ _ _ hm := by
    obtain ⟨name, address, heq, -⟩ := h _ hm
    simp at heq

theorem exists_path_prime (t : AddressTable) (name : String) (address : UInt64) :
    ∃ moves, Path t moves (t.prime name address).2 ∧ Fits t (.prime name address) moves := by
  rcases prime_cases t name address with hsame | ⟨hen, hprime⟩
  · exact ⟨[], by rw [hsame]; exact .nil t, .nil fun h => h⟩
  · rw [hprime]
    refine ⟨_, .single hen, .of_primes (fun h => h) ?_⟩
    intro move hm
    exact ⟨name, address, List.mem_singleton.1 hm, rfl, by rw [hprime]⟩

/-- A cache that is applied takes a path of primings. -/
theorem exists_path_applyCache (t : AddressTable) (cache : AddressCache) (base : UInt64) :
    ∃ moves, Path t moves (cache.apply t base).2 ∧ Fits t (.applyCache cache base) moves := by
  obtain ⟨moves, hpath, hmoves⟩ := path_primeAll base t cache.addresses.pairs
  refine ⟨moves, hpath, .of_primes (fun h => h) ?_⟩
  intro move hm
  obtain ⟨before, name, offset, after, hpairs, heq, hok⟩ := hmoves move hm
  exact ⟨name, _, heq, before, offset, after, hpairs, hok⟩

/-- A call takes a path of the moves that fit it. -/
theorem exists_path_step (t : AddressTable) (c : Call) :
    ∃ moves, Path t moves (step t c).2 ∧ Fits t c moves := by
  cases c with
  | register name pattern offset =>
    exact exists_path_definitions (fun h => h)
      (snd_step_of_definitions t (by simp [Call.definitions]))
  | registerDefinition d =>
    exact exists_path_definitions (fun h => h)
      (snd_step_of_definitions t (by simp [Call.definitions]))
  | registerSet set => exact exists_path_definitions (fun h => h) rfl
  | lookup name => exact ⟨[], .nil t, .nil fun h => h⟩
  | pending => exact ⟨[], .nil t, .nil fun h => h⟩
  | entries => exact ⟨[], .nil t, .nil fun h => h⟩
  | value name => exact exists_path_value t name
  | readPointer name => exact exists_path_readPointer t name
  | resolveAll => exact exists_path_resolveAll t
  | prime name address => exact exists_path_prime t name address
  | applyCache cache base => exact exists_path_applyCache t cache base

/-! ## Runs -/

/-- A run is a path of moves. -/
theorem exists_path_run (t : AddressTable) (calls : List Call) :
    ∃ moves, Path t moves (run t calls) := by
  induction calls generalizing t with
  | nil => exact ⟨[], .nil t⟩
  | cons c calls ih =>
    obtain ⟨as, ha, -⟩ := exists_path_step t c
    obtain ⟨bs, hb⟩ := ih (step t c).2
    exact ⟨as ++ bs, ha.append hb⟩

/-- What every move keeps holds after every run. -/
theorem run_preserves {P : AddressTable → Prop}
    (hP : ∀ t (move : Move), move.Enabled t → P t → P (move.apply t)) (calls : List Call)
    (ht : P t) : P (run t calls) := by
  obtain ⟨moves, hpath⟩ := exists_path_run t calls
  exact hpath.preserves hP ht

end

/-- At some call of a run the property holds of the call and the table before it. -/
def Sometime (P : AddressTable → Call → Prop) (t : AddressTable) (calls : List Call) : Prop :=
  ∃ before c after, calls = before ++ c :: after ∧ P (run t before) c

namespace Sometime

variable {P : AddressTable → Call → Prop} {t : AddressTable} {c : Call} {calls : List Call}

theorem head (h : P t c) : Sometime P t (c :: calls) :=
  ⟨[], c, calls, rfl, h⟩

theorem tail (h : Sometime P (step t c).2 calls) : Sometime P t (c :: calls) := by
  obtain ⟨before, c', after, rfl, hP⟩ := h
  exact ⟨c :: before, c', after, rfl, hP⟩

theorem exists_mem (h : Sometime P t calls) : ∃ c ∈ calls, ∃ t', P t' c := by
  obtain ⟨before, c, after, rfl, hP⟩ := h
  exact ⟨c, by simp, run t before, hP⟩

/-- The run goes on from the call. -/
theorem exists_run_eq (h : Sometime P t calls) :
    ∃ t' c after, P t' c ∧ run t calls = run (step t' c).2 after := by
  obtain ⟨before, c, after, rfl, hP⟩ := h
  exact ⟨run t before, c, after, hP, run_append t before (c :: after)⟩

end Sometime

end SigScan.Session
