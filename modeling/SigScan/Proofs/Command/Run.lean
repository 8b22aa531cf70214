/-
SigScan.Proofs.Command.Run — a scan command, taken apart.

What a run works on comes from the signature file and the dump alone (`prepare`): a fresh
session and where its module lies. The rest of a run, `run_eq_of_prepare`, sees of the files
only the cache. The session of a run is well formed and nothing in it is settled
(`wellFormed_session`, `fresh_session`). Over a dump that ends within the address space no run
is stopped (`attempt_of_le_size`).
-/
import SigScan.Command.Scan
import SigScan.Proofs.Scan.Within
import SigScan.Proofs.Session.Attempt
import SigScan.Proofs.Session.Cached

namespace SigScan.Command

namespace Outcome

/-- The files after a command: the cache that it writes is in its file. -/
def files (o : Outcome) (read : String → Except FileFault ByteArray) (path : String) :
    Except FileFault ByteArray :=
  match o.write with
  | some (file, c) => if path = file then .ok c.toJson.toUTF8 else read path
  | none => read path

/-- The cache that a command writes reads back as it is. -/
def ReadsBack (o : Outcome) : Prop :=
  ∀ path c, o.write = some (path, c) → AddressCache.load (.ok c.toJson.toUTF8) = some c

variable {o : Outcome} {path : String} {c : AddressCache}

theorem files_of_write_none (h : o.write = none) (read : String → Except FileFault ByteArray) :
    o.files read = read := by
  funext path
  simp [files, h]

theorem files_of_ne (h : o.write = some (path, c)) (read : String → Except FileFault ByteArray)
    {other : String} (hne : other ≠ path) : o.files read other = read other := by
  simp [files, h, hne]

theorem ReadsBack.load_files (hsaved : o.ReadsBack) (h : o.write = some (path, c))
    (read : String → Except FileFault ByteArray) :
    AddressCache.load (o.files read path) = some c := by
  simp only [files, h, if_true]
  exact hsaved path c h

theorem readsBack_of_write (h : o.write = some (path, c))
    (hload : AddressCache.load (.ok c.toJson.toUTF8) = some c) : o.ReadsBack := by
  intro path' c' h'
  obtain ⟨rfl, rfl⟩ := Prod.mk.inj (Option.some.inj (h.symm.trans h'))
  exact hload

end Outcome

namespace Scan

section

variable {read read' : String → Except FileFault ByteArray} {now : Instant} {r : Request}
  {s : Setup}

/-- Where there is something to work on, a run reports on its session. -/
theorem run_eq_of_prepare (h : prepare read r = .ok s) (now : Instant) :
    run read now r =
      let o := report read now r s.version s.base (s.session r.settings)
      { o with lines := s.banner :: o.lines } := by
  rw [run, h]

/-- Where there is something to work on, the set was loaded and registered as a whole and the
dump was read. -/
theorem exists_set_of_prepare (h : prepare read r = .ok s) :
    ∃ set entries, SignatureSet.load (read r.signatures) = .ok set
      ∧ Registry.empty.registerAll set.signatures = (.ok entries, s.registry)
      ∧ r.origin = .dump s.dump s.base ∧ read s.dump = .ok s.bytes ∧ s.version = set.version := by
  unfold prepare at h
  split at h
  · simp at h
  · next set hload =>
    split at h
    · simp at h
    · next entries registry hregistered =>
      split at h
      · simp at h
      · next path base horigin =>
        split at h
        · simp at h
        · next bytes hread =>
          obtain rfl := Except.ok.inj h
          exact ⟨set, entries, hload, hregistered, horigin, hread, rfl⟩

/-- Files that could not be read make no difference to what a run works on. -/
theorem prepare_congr (h : prepare read r = .ok s)
    (hsame : ∀ path bytes, read path = .ok bytes → read' path = .ok bytes) :
    prepare read' r = .ok s := by
  obtain ⟨set, entries, hload, hregistered, horigin, hread, hversion⟩ := exists_set_of_prepare h
  obtain ⟨bytes, hbytes⟩ : ∃ bytes, read r.signatures = .ok bytes := by
    cases hr : read r.signatures with
    | ok bytes => exact ⟨bytes, rfl⟩
    | error fault =>
      rw [hr] at hload
      simp [SignatureSet.load, FileFault.decode] at hload
  rw [hbytes] at hload
  obtain ⟨version, registry, dump, base, dumped⟩ := s
  simp only at hregistered horigin hread hversion
  simp only [prepare, hsame _ _ hbytes, hload, hregistered, horigin, hsame _ _ hread, hversion]

/-! ## What a run does with its session -/

section

variable {version : String} {base : UInt64} {t : AddressTable}

/-- A cache is of no use to a session, or primes some of it. -/
theorem applyCache_cases (cached : Option AddressCache) (now : Instant) (version : String)
    (base : UInt64) (t : AddressTable) :
    applyCache cached now version base t = (none, t) ∨
      ∃ c, cached = some c ∧ c.isValidFor now version = true
        ∧ applyCache cached now version base t = (some c, (c.apply t base).2) := by
  unfold applyCache
  cases cached with
  | none => exact .inl rfl
  | some c =>
    dsimp only
    cases hvalid : c.isValidFor now version with
    | false => exact .inl rfl
    | true =>
      by_cases hcount : (c.apply t base).1 = 0
      · refine .inl ?_
        simp only [if_true, hcount]
        rw [AddressCache.apply, AddressCache.eq_of_count_primeAll base hcount]
      · refine .inr ⟨c, rfl, hvalid, ?_⟩
        simp only [if_true, if_neg hcount]

theorem refreshed_eq_none_iff {applied : Option AddressCache} :
    refreshed applied now version base t = none ↔
      t.scanCount = 0 ∨ t.report.resolved = [] := by
  by_cases hcount : t.scanCount = 0 <;> simp [refreshed, hcount]

theorem refreshed_eq_some_iff {applied : Option AddressCache} {c : AddressCache} :
    refreshed applied now version base t = some c ↔
      t.scanCount ≠ 0 ∧ t.report.resolved ≠ []
        ∧ AddressCache.capture version ((applied.map AddressCache.createdAt).getD now)
          t.registry base = c := by
  simp [refreshed]

/-- The outcome of a run with a cache, given the session that the cache leads to. -/
theorem report_eq {path : String} {applied : Option AddressCache} {t' : AddressTable}
    (hcache : r.cache = some path)
    (h : applyCache (AddressCache.load (read path)) now version base t = (applied, t')) :
    report read now r version base t =
      { lines := reportLines base t'.runPass
        write := (refreshed applied now version base t'.runPass).map fun c => (path, c)
        failure := incomplete t'.runPass.report } := by
  simp only [report, hcache, Option.bind_some, h]

/-- A run writes nothing but its cache. -/
theorem cache_of_write {path : String} {c : AddressCache}
    (h : (run read now r).write = some (path, c)) : r.cache = some path := by
  rw [run] at h
  cases hprepare : prepare read r with
  | error failure => simp [hprepare, Outcome.failed] at h
  | ok s =>
    simp only [hprepare, report] at h
    obtain ⟨file, hcache, hc⟩ := Option.bind_eq_some_iff.1 h
    obtain ⟨c', -, hpath⟩ := Option.map_eq_some_iff.1 hc
    rw [hcache, (Prod.mk.inj hpath).1]

theorem files_run_of_ne {path other : String} (hcache : r.cache = some path)
    (hne : other ≠ path) : (run read now r).files read other = read other := by
  cases hwrite : (run read now r).write with
  | none => rw [Outcome.files_of_write_none hwrite]
  | some written =>
    obtain ⟨file, c⟩ := written
    obtain rfl := Option.some.inj (hcache.symm.trans (cache_of_write hwrite))
    exact Outcome.files_of_ne hwrite read hne

end

/-! ## The session of a run -/

theorem wellFormed_session (h : prepare read r = .ok s) (config : SigScan.Scan.Config) :
    WellFormed (s.session config) := by
  obtain ⟨set, entries, -, hregistered, -⟩ := exists_set_of_prepare h
  have hrun := Session.wellFormed_run (Snapshot.ofDump s.bytes s.base).source
    (Snapshot.ofDump s.bytes s.base).regions config [.registerSet set]
  have hregistry : (Registry.empty.registerAll set.signatures).2 = s.registry := by
    rw [hregistered]
  simp only [Session.run, List.foldl_cons, List.foldl_nil, Session.step, AddressTable.new,
    hregistry] at hrun
  exact hrun

theorem fresh_session (h : prepare read r = .ok s) (config : SigScan.Scan.Config) :
    (s.session config).registry.Fresh := by
  obtain ⟨set, entries, -, hregistered, -⟩ := exists_set_of_prepare h
  have hfresh := Registry.fresh_registerAll Registry.fresh_empty set.signatures
  rw [hregistered] at hfresh
  exact hfresh

/-! ## Runs that are not stopped -/

/-- A cache is applied to the session of a run without a change to where the module lies. -/
theorem frame_applyCache (cached : Option AddressCache) (now : Instant) (version : String)
    (base : UInt64) (t : AddressTable) :
    (applyCache cached now version base t).2.memory = t.memory
      ∧ (applyCache cached now version base t).2.config = t.config
      ∧ (applyCache cached now version base t).2.regions = t.regions := by
  rcases applyCache_cases cached now version base t with h | ⟨c, -, -, h⟩
  · rw [h]
    exact ⟨rfl, rfl, rfl⟩
  · rw [h]
    obtain ⟨moves, hpath, -⟩ := Session.path_primeAll base t c.addresses.pairs
    exact hpath.frame

theorem wellFormed_applyCache {t : AddressTable} (h : WellFormed t) (cached : Option AddressCache)
    (now : Instant) (version : String) (base : UInt64) :
    WellFormed (applyCache cached now version base t).2 := by
  rcases applyCache_cases cached now version base t with hnone | ⟨c, -, -, hsome⟩
  · rwa [hnone]
  · rw [hsome]
    exact h.applyCache c base

/-- Over a dump that ends within the address space no run is stopped. -/
theorem attempt_of_le_size (hfits : ∀ s, prepare read r = .ok s →
      s.bytes.size < UInt64.size ∧ s.base.toNat + s.bytes.size ≤ UInt64.size) :
    attempt read now r = .ok (run read now r) := by
  rw [attempt]
  cases hprepare : prepare read r with
  | error failure => rw [run, hprepare]
  | ok s =>
    obtain ⟨hsize, htop⟩ := hfits s hprepare
    obtain ⟨t, ht⟩ : ∃ t, t = s.primed read now r := ⟨_, rfl⟩
    have hwell : WellFormed t :=
      ht ▸ wellFormed_applyCache (wellFormed_session hprepare r.settings) _ now s.version s.base
    obtain ⟨hmemory, -, hregions⟩ :=
      frame_applyCache (r.cache.bind fun path => AddressCache.load (read path)) now s.version
        s.base (s.session r.settings)
    have hregion : t.regions = [⟨s.base, s.bytes.size, .code⟩] := by
      rw [ht, Setup.primed, hregions]
      rfl
    have hpass : t.PassFits := by
      refine AddressTable.passFits_of_le_size hwell ?_ ?_ ?_
      · rw [ht, Setup.primed, hmemory]
        exact (Snapshot.ofDump s.bytes s.base).exact.bounded
      · rw [hregion]
        exact Nat.lt_of_le_of_lt (SigScan.Scan.totalLen_filter_singleton_le _ _) hsize
      · intro region hmem
        obtain rfl := List.mem_singleton.1 (hregion ▸ (List.mem_filter.1 hmem).1)
        exact htop
    have hattempt := (AddressTable.attemptPass_eq_ok_iff hwell).2 ⟨.inr hpass, rfl⟩
    simp only [← ht, hattempt, Except.map]

end

end Scan

end SigScan.Command
