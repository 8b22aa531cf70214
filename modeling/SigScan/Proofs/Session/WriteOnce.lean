/-
SigScan.Proofs.Session.WriteOnce — what a session never changes.

An entry stays under its name for good, with the signature of the first definition of the
name (`compile_of_firstDefined`), and once it is settled it does not change
(`exists_becomes_run`). A call that scans runs one pass and leaves nothing pending, any
other call runs none (`scanCount_step_of_scans`, `scanCount_step_of_not_scans`).
`writeOnce_run` puts these together for every list of calls. A pattern is kept without the
blanks at its ends, as `failure_pattern_trimmed` shows.
-/
import SigScan.Proofs.Session.WellFormed

namespace SigScan

/-! ## Entries that go on -/

/-- What an entry may become: its state may change until it is settled, nothing else. -/
def Entry.Becomes (e e' : Entry) : Prop :=
  e'.name = e.name ∧ e'.signature = e.signature ∧ e'.deref = e.deref
    ∧ (e.isSettled = true → e' = e)

namespace Entry.Becomes

theorem refl (e : Entry) : e.Becomes e :=
  ⟨rfl, rfl, rfl, fun _ => rfl⟩

theorem settle (e : Entry) (state : EntryState) : e.Becomes (e.settle state) := by
  cases hs : e.isSettled with
  | true =>
    rw [Entry.settle_of_isSettled hs]
    exact refl e
  | false =>
    rw [Entry.settle_of_not_isSettled hs]
    exact ⟨rfl, rfl, rfl, fun h => by simp [hs] at h⟩

theorem trans {a b c : Entry} (hab : a.Becomes b) (hbc : b.Becomes c) : a.Becomes c := by
  obtain ⟨hn, hs, hd, hk⟩ := hab
  obtain ⟨hn', hs', hd', hk'⟩ := hbc
  refine ⟨hn'.trans hn, hs'.trans hs, hd'.trans hd, ?_⟩
  intro h
  obtain rfl := hk h
  exact hk' h

end Entry.Becomes

namespace Session

section

variable {t t' : AddressTable} {moves : List Move} {name : String}

/-- After a move the entry of a name is what the entry before it has become, or new. -/
theorem Move.becomes_or_insert {move : Move} (hen : move.Enabled t) {e' : Entry}
    (h : (move.apply t).registry.find? name = some e') :
    (∃ e, t.registry.find? name = some e ∧ e.Becomes e') ∨
      (t.registry.find? name = none ∧ move = .insert name e'.signature e'.deref) := by
  rw [find?_apply] at h
  cases move with
  | insert n s deref =>
    dsimp only at h
    split at h
    · next hname =>
      obtain rfl := Option.some.inj h
      exact .inr ⟨hname ▸ hen.1, by rw [hname]⟩
    · exact .inl ⟨e', h, .refl e'⟩
  | pass =>
    obtain ⟨e, hf, rfl⟩ := Option.map_eq_some_iff.1 h
    exact .inl ⟨e, hf, .settle e _⟩
  | prime n address =>
    obtain ⟨e, hf, he⟩ := Option.map_eq_some_iff.1 h
    refine .inl ⟨e, hf, ?_⟩
    split at he
    · exact he ▸ .settle e _
    · exact he ▸ .refl e

theorem Move.exists_becomes {move : Move} (hen : move.Enabled t) {e : Entry}
    (h : t.registry.find? name = some e) :
    ∃ e', (move.apply t).registry.find? name = some e' ∧ e.Becomes e' := by
  rw [find?_apply]
  cases move with
  | insert n s deref =>
    have hne : name ≠ n := by
      rintro rfl
      simp [hen.1] at h
    exact ⟨e, by simp [hne, h], .refl e⟩
  | pass =>
    exact ⟨e.settle (e.ownState t.memory t.config t.regions), by simp [h], .settle e _⟩
  | prime n address =>
    by_cases hn : name = n
    · subst hn
      exact ⟨e.settle (.resolved address), by simp [h], .settle e _⟩
    · exact ⟨e, by simp [h, hn], .refl e⟩

/-- An entry is never removed or replaced. -/
theorem Path.exists_becomes (h : Path t moves t') {e : Entry}
    (hf : t.registry.find? name = some e) :
    ∃ e', t'.registry.find? name = some e' ∧ e.Becomes e' := by
  induction h generalizing e with
  | nil => exact ⟨e, hf, .refl e⟩
  | cons hen _ ih =>
    obtain ⟨e', hf', hb⟩ := Move.exists_becomes hen hf
    obtain ⟨e'', hf'', hb'⟩ := ih hf'
    exact ⟨e'', hf'', hb.trans hb'⟩

/-- An entry was there before, or some move of the path made it. -/
theorem Path.becomes_or_insert (h : Path t moves t') {e' : Entry}
    (hf : t'.registry.find? name = some e') :
    (∃ e, t.registry.find? name = some e ∧ e.Becomes e') ∨
      .insert name e'.signature e'.deref ∈ moves := by
  induction h with
  | nil => exact .inl ⟨e', hf, .refl e'⟩
  | cons hen _ ih =>
    rcases ih hf with ⟨e, hmid, hb⟩ | hmem
    · rcases Move.becomes_or_insert hen hmid with ⟨e₀, hf₀, hb₀⟩ | ⟨-, hmove⟩
      · exact .inl ⟨e₀, hf₀, hb₀.trans hb⟩
      · obtain ⟨-, hs, hd, -⟩ := hb
        rw [hs, hd]
        exact .inr (hmove ▸ List.mem_cons_self)
    · exact .inr (List.mem_cons_of_mem _ hmem)

theorem exists_becomes_run (calls : List Call) {e : Entry}
    (h : t.registry.find? name = some e) :
    ∃ e', (run t calls).registry.find? name = some e' ∧ e.Becomes e' := by
  obtain ⟨moves, hpath⟩ := exists_path_run t calls
  exact hpath.exists_becomes h

/-! ## Answers of settled entries -/

end

end Session

/-- The answer that is stored, if any is. -/
def EntryState.answer? : EntryState → Option (Except Error UInt64)
  | unresolved => none
  | resolved address => some (.ok address)
  | failed failure => some (.error (.unresolved failure))

theorem Entry.isSettled_of_answer? {e : Entry} {r : Except Error UInt64}
    (h : e.state.answer? = some r) : e.isSettled = true := by
  unfold isSettled
  cases hs : e.state with
  | unresolved => simp [hs, EntryState.answer?] at h
  | resolved address => rfl
  | failed failure => rfl

theorem AddressTable.value_of_answer? {t : AddressTable} {name : String} {e : Entry}
    (hf : t.registry.find? name = some e) {r : Except Error UInt64}
    (h : e.state.answer? = some r) : t.value name = (r, t) := by
  have hs : e.isSettled = true := Entry.isSettled_of_answer? h
  unfold value
  simp only [hf, hs, if_true, Option.getD_some]
  cases hstate : e.state with
  | unresolved => simp [hstate, EntryState.answer?] at h
  | resolved address =>
    rw [hstate] at h
    simpa [EntryState.answer?] using h
  | failed failure =>
    rw [hstate] at h
    simpa [EntryState.answer?] using h

namespace Session

section

variable {t t' : AddressTable} {calls : List Call} {name : String} {d : Definition}

/-! ## The first definition of a name -/

/-- Some call makes the entry of the name, and this is the first definition of the name in
that call. -/
def FirstDefined (t : AddressTable) (calls : List Call) (name : String) (d : Definition) : Prop :=
  Sometime (fun t c => t.registry.find? name = none ∧ (step t c).2.registry.find? name ≠ none
    ∧ c.definitions.find? (fun d => d.name == name) = some d) t calls

theorem exists_definition_step {c : Call} {e : Entry} (hnone : t.registry.find? name = none)
    (h : (step t c).2.registry.find? name = some e) :
    ∃ d, c.definitions.find? (fun d => d.name == name) = some d
      ∧ d.compile = .ok e.signature ∧ d.deref = e.deref := by
  obtain ⟨moves, hpath, hfits⟩ := exists_path_step t c
  rcases hpath.becomes_or_insert h with ⟨e₀, hf, -⟩ | hmem
  · simp [hnone] at hf
  · exact hfits.defines _ _ _ hmem

/-- Every entry of a run that starts without it has a first definition. -/
theorem exists_firstDefined (hnone : t.registry.find? name = none)
    (h : (run t calls).registry.find? name ≠ none) : ∃ d, FirstDefined t calls name d := by
  induction calls generalizing t with
  | nil => exact absurd hnone h
  | cons c calls ih =>
    cases hc : (step t c).2.registry.find? name with
    | none =>
      obtain ⟨d, hd⟩ := ih hc h
      exact ⟨d, hd.tail⟩
    | some e =>
      obtain ⟨d, hd, -⟩ := exists_definition_step hnone hc
      exact ⟨d, .head ⟨hnone, by simp [hc], hd⟩⟩

/-- An entry has the signature of the first definition of its name. -/
theorem compile_of_firstDefined (hd : FirstDefined t calls name d) {e : Entry}
    (h : (run t calls).registry.find? name = some e) :
    d.compile = .ok e.signature ∧ d.deref = e.deref := by
  obtain ⟨t', c, after, ⟨hnone, hsome, hfirst⟩, hrun⟩ := hd.exists_run_eq
  obtain ⟨e₀, he₀⟩ := Option.ne_none_iff_exists'.1 hsome
  obtain ⟨d', hd', hcompile, hderef⟩ := exists_definition_step hnone he₀
  obtain rfl := Option.some.inj (hfirst.symm.trans hd')
  obtain ⟨e', he', -, hs, hder, -⟩ := exists_becomes_run after he₀
  obtain rfl := Option.some.inj (h.symm.trans (hrun ▸ he'))
  exact ⟨hs ▸ hcompile, hder ▸ hderef⟩

theorem pattern_of_compile {s : Signature} (h : d.compile = .ok s) :
    s.pattern = String.ofList (Text.trim d.pattern.toList) := by
  obtain ⟨_, _, -, -, hpattern, -⟩ := Signature.compile_eq_ok_iff.1 h
  exact hpattern

/-! ## Passes -/

/-- A call that scans runs a pass, and there is something to find. -/
theorem step_of_scans {c : Call} (h : c.Scans t) :
    t.registry.pending ≠ [] ∧ (step t c).2 = t.runPass := by
  obtain ⟨moves, hpath, hfits⟩ := exists_path_step t c
  obtain rfl := hfits.pass_of_scans h
  exact hpath.eq_of_single

theorem scanCount_step_of_scans {c : Call} (h : c.Scans t) :
    (step t c).2.scanCount = t.scanCount + 1 ∧ (step t c).2.registry.pending = [] := by
  obtain ⟨hpending, heq⟩ := step_of_scans h
  rw [heq]
  exact ⟨by rw [runPass_eq hpending], AddressTable.pending_runPass t⟩

theorem Path.scanCount_eq {moves : List Move} (h : Path t moves t') (hm : .pass ∉ moves) :
    t'.scanCount = t.scanCount := by
  induction h with
  | nil => rfl
  | @cons t _ move moves _ _ ih =>
    rw [List.mem_cons, not_or] at hm
    rw [ih hm.2]
    cases move with
    | pass => exact absurd rfl hm.1
    | insert n s deref => rfl
    | prime n address => rfl

theorem scanCount_step_of_not_scans {c : Call} (h : ¬ c.Scans t) :
    (step t c).2.scanCount = t.scanCount := by
  obtain ⟨moves, hpath, hfits⟩ := exists_path_step t c
  exact hpath.scanCount_eq fun hm => h (hfits.scans_of_pass hm)

/-! ## Every run -/

/-- What holds of a session after a list of calls, whatever the calls. -/
structure WriteOnce (start : AddressTable) (calls : List Call) : Prop where
  /-- An entry stays under its name, and if it is settled it stays as it is. -/
  kept : ∀ name e later, (run start calls).registry.find? name = some e →
    ∃ e', (run start (calls ++ later)).registry.find? name = some e' ∧ e.Becomes e'
  /-- What a settled entry holds is the answer from then on. -/
  answered : ∀ name e later r, (run start calls).registry.find? name = some e →
    e.state.answer? = some r → ((run start (calls ++ later)).value name).1 = r
  /-- A failure names its entry and the pattern of the first definition, without the blanks
  at its ends. -/
  labelled : ∀ name e f, (run start calls).registry.find? name = some e → e.state = .failed f →
    f.name = name ∧ (∃ d, FirstDefined start calls name d)
      ∧ ∀ d, FirstDefined start calls name d →
        f.pattern = String.ofList (Text.trim d.pattern.toList)
  bounded : (run start calls).scanCount + (run start calls).registry.pending.length ≤
    (run start calls).registry.size
  scans : ∀ c, c.Scans (run start calls) →
    (run start (calls ++ [c])).scanCount = (run start calls).scanCount + 1
      ∧ (run start (calls ++ [c])).registry.pending = []
  idle : ∀ c, ¬ c.Scans (run start calls) →
    (run start (calls ++ [c])).scanCount = (run start calls).scanCount

theorem run_concat (t : AddressTable) (calls : List Call) (c : Call) :
    run t (calls ++ [c]) = (step (run t calls) c).2 :=
  run_append t calls [c]

theorem find?_new (memory : Source) (regions : List Region) (config : Scan.Config)
    (name : String) : (AddressTable.new memory regions config).registry.find? name = none := rfl

/-- Whatever is called on a session without entries: entries and their outcomes are written
once, failures are labelled with their own entry, and passes are run only when needed. -/
theorem writeOnce_run (memory : Source) (regions : List Region) (config : Scan.Config)
    (calls : List Call) : WriteOnce (.new memory regions config) calls where
  kept name e later h := by
    rw [run_append]
    exact exists_becomes_run later h
  answered name e later r h hr := by
    rw [run_append]
    obtain ⟨e', hf, -, -, -, hkeep⟩ := exists_becomes_run later h
    obtain rfl := hkeep (Entry.isSettled_of_answer? hr)
    rw [AddressTable.value_of_answer? hf hr]
  labelled name e f h hfailed := by
    have hbelongs := (wellFormed_run memory regions config calls).belongs name e h
    obtain ⟨kind, rfl⟩ := hbelongs.failure_eq f hfailed
    refine ⟨hbelongs.name_eq, ?_, fun d hd => ?_⟩
    · exact exists_firstDefined (find?_new memory regions config name) (by simp [h])
    · exact pattern_of_compile (compile_of_firstDefined hd h).1
  bounded := (wellFormed_run memory regions config calls).scans_le
  scans c h := by
    rw [run_concat]
    exact scanCount_step_of_scans h
  idle c h := by
    rw [run_concat]
    exact scanCount_step_of_not_scans h

/-- A session over a module without regions. -/
def bareSession : AddressTable := .new (.ofContents UInt64.toUInt8) [] {}

/-- A pattern with blanks around it is looked for where there is nothing. -/
def missingCalls : List Call := [.register "A" " AA " none, .resolveAll]

def missingEntry : Entry :=
  ⟨"A", ⟨"AA", [⟨0xAA, 0xFF⟩], 1, 0, .direct, 0, 0xAA⟩, false, .failed ⟨"A", "AA", .noMatch⟩⟩

/-- The failure is still the answer after the pass of another entry, and that pass is the
second. -/
theorem writeOnce_run_missing :
    ((run bareSession (missingCalls ++ [.register "B" "BB" none, .value "B"])).value "A").1 =
        .error (.unresolved ⟨"A", "AA", .noMatch⟩)
      ∧ (run bareSession ((missingCalls ++ [.register "B" "BB" none]) ++ [.value "B"])).scanCount =
        (run bareSession (missingCalls ++ [.register "B" "BB" none])).scanCount + 1 := by
  have hbare : ∀ calls, WriteOnce bareSession calls := writeOnce_run _ _ _
  have hscans : Call.Scans (run bareSession (missingCalls ++ [.register "B" "BB" none]))
      (.value "B") :=
    ⟨⟨"B", ⟨"BB", [⟨0xBB, 0xFF⟩], 1, 0, .direct, 0, 0xBB⟩, false, .unresolved⟩, by decide, rfl⟩
  exact ⟨(hbare missingCalls).answered "A" missingEntry _ _ (by decide) rfl,
    ((hbare _).scans _ hscans).1⟩

/-- The failure does not carry the text as it was registered. -/
theorem failure_pattern_trimmed :
    ∃ e f d, (run bareSession missingCalls).registry.find? "A" = some e ∧ e.state = .failed f
      ∧ FirstDefined bareSession missingCalls "A" d ∧ f.pattern ≠ d.pattern := by
  have hdefined : FirstDefined bareSession missingCalls "A" ⟨"A", " AA ", none, false⟩ :=
    .head ⟨rfl, by decide, rfl⟩
  exact ⟨missingEntry, ⟨"A", "AA", .noMatch⟩, _, by decide, rfl, hdefined, by decide⟩

end

end Session

end SigScan
