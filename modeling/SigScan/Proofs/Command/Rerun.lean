/-
SigScan.Proofs.Command.Rerun — the scan command, run again with the cache that it wrote.

The first run of a command scans, and keeps what it found as offsets from the base. A run
with the same inputs within a day is primed from these, and a pass settles what is left in
the state that it had after the first run, since an entry comes to its state by itself
(`runPass_apply_capture`). So the second run prints the same report, but for the number of
passes, and the cache has the same addresses after it (`reruns`). A cache without addresses
is of no use to the second run, which scans anew and replaces it by its own.
-/
import SigScan.Proofs.Command.Run

namespace SigScan

/-! ## A cache of a pass, applied before the pass -/

section

variable {t : AddressTable}

theorem AddressTable.frame_runPass (t : AddressTable) :
    t.runPass = { t with registry := t.runPass.registry, scanCount := t.runPass.scanCount } := by
  unfold runPass
  split <;> rfl

namespace AddressCache

variable (version : String) (createdAt : Instant) (base : UInt64)

/-- An address that comes out of a pass may as well be primed before the pass. -/
theorem settle_offset (e : Entry) (state : EntryState) {offset : UInt64}
    (h : offset? base (e.settle state) = some offset) :
    e.settle (.resolved (place base offset)) = e.settle state := by
  have hstate := place_offset h
  cases hs : e.isSettled with
  | true => rw [Entry.settle_of_isSettled hs, Entry.settle_of_isSettled hs]
  | false =>
    rw [Entry.settle_of_not_isSettled hs] at hstate ⊢
    rw [Entry.settle_of_not_isSettled hs]
    simp only at hstate
    rw [hstate]

theorem find?_runPass_apply_capture (h : WellFormed t) (name : String) :
    ((capture version createdAt t.runPass.registry base).apply t base).2.runPass.registry.find?
      name = t.runPass.registry.find? name := by
  have hfind := find?_capture h.runPass version createdAt base name
  generalize capture version createdAt t.runPass.registry base = c at *
  have hown : Entry.ownState (c.apply t base).2.memory (c.apply t base).2.config
      (c.apply t base).2.regions = Entry.ownState t.memory t.config t.regions := by
    rw [apply_eq]
  rw [Session.find?_runPass, find?_apply, hown, hfind, Session.find?_runPass,
    Option.map_map]
  cases t.registry.find? name with
  | none => rfl
  | some e =>
    simp only [Option.map_some, Option.bind_some, Function.comp_apply]
    cases ho : offset? base (e.settle (e.ownState t.memory t.config t.regions)) with
    | none => rfl
    | some offset =>
      have hsettled : (e.settle (e.ownState t.memory t.config t.regions)).isSettled = true := by
        rw [Entry.isSettled, place_offset ho]
      simp only [settle_offset base e _ ho, Entry.settle_of_isSettled hsettled]

/-- A session that is primed from the cache of its own pass comes to the same entries. -/
theorem runPass_apply_capture (h : WellFormed t) :
    ((capture version createdAt t.runPass.registry base).apply t base).2.runPass =
      { t.runPass with
        scanCount :=
          ((capture version createdAt t.runPass.registry base).apply t base).2.runPass.scanCount }
    := by
  have hregistry := Registry.eq_of_find? (find?_runPass_apply_capture version createdAt base h)
  generalize capture version createdAt t.runPass.registry base = c at *
  rw [AddressTable.frame_runPass, hregistry, apply_eq c t base, AddressTable.frame_runPass t]

/-- A cache of a pass that holds an address primes an entry of the session as it was before
the pass. -/
theorem count_apply_capture (h : WellFormed t) (hfresh : t.registry.Fresh)
    (haddresses : (capture version createdAt t.runPass.registry base).addresses.pairs ≠ []) :
    ((capture version createdAt t.runPass.registry base).apply t base).1 ≠ 0 := by
  intro hcount
  have hfind := find?_capture h.runPass version createdAt base
  generalize capture version createdAt t.runPass.registry base = c at *
  obtain ⟨⟨name, offset⟩, hmem⟩ := List.exists_mem_of_ne_nil _ haddresses
  have hoffset := NameTable.find?_of_mem_pairs hmem
  have hfound := hoffset.symm.trans (hfind name)
  obtain ⟨e, he⟩ : ∃ e, t.registry.find? name = some e := by
    cases hf : t.registry.find? name with
    | some e => exact ⟨e, rfl⟩
    | none => simp [Session.find?_runPass, hf] at hfound
  -- The cache would settle this entry, and yet it is as it was.
  have hsame : (c.apply t base).2 = t := eq_of_count_primeAll base hcount
  have happlied := find?_apply c t base name
  simp only [hsame, he, hoffset, Option.map_some, Option.some.injEq] at happlied
  rw [Entry.settle_of_not_isSettled (hfresh.isSettled_eq_false he)] at happlied
  have hstate := congrArg Entry.state happlied
  simp [hfresh name e he] at hstate

end AddressCache

end

namespace AddressTable

/-! ## What does not depend on the number of passes -/

variable (t : AddressTable) (n : Nat)

theorem runPass_scanCount :
    runPass { t with scanCount := n } =
      { t.runPass with scanCount := (runPass { t with scanCount := n }).scanCount } := by
  unfold runPass
  cases t.registry.pending <;> rfl

theorem value_scanCount (name : String) :
    ∃ passes, value { t with scanCount := n } name =
      ((t.value name).1, { (t.value name).2 with scanCount := passes }) := by
  unfold value
  cases t.registry.find? name with
  | none => exact ⟨n, rfl⟩
  | some e =>
    dsimp only
    cases e.isSettled with
    | true =>
      refine ⟨n, ?_⟩
      simp only [if_true]
      cases ((t.registry.find? name).getD e).state <;> rfl
    | false =>
      refine ⟨(runPass { t with scanCount := n }).scanCount, ?_⟩
      simp only [Bool.false_eq_true, if_false]
      rw [runPass_scanCount]
      cases ((t.runPass.registry.find? name).getD e).state <;> rfl

theorem readPointer_scanCount (name : String) :
    (readPointer { t with scanCount := n } name).1 = (t.readPointer name).1 := by
  obtain ⟨passes, hvalue⟩ := value_scanCount t n name
  unfold readPointer
  rw [hvalue]
  cases t.registry.find? name with
  | none => rfl
  | some e =>
    dsimp only
    cases e.deref with
    | false => rfl
    | true =>
      obtain ⟨result, t'⟩ := t.value name
      cases result <;> rfl

end AddressTable

namespace Command

namespace Scan

/-! ## Reports -/

/-- The last line of a report. -/
def summary (resolved total passes : Nat) : String :=
  s!"Resolved {resolved}/{total} signatures ({passes} scan passes)"

/-- Two outputs of which at most the numbers of passes differ. -/
inductive SameReport : List String → List String → Prop where
  | refl (lines : List String) : SameReport lines lines
  | passes (lines : List String) (resolved total n m : Nat) :
      SameReport (lines ++ [summary resolved total n]) (lines ++ [summary resolved total m])

theorem SameReport.cons (line : String) {a b : List String} (h : SameReport a b) :
    SameReport (line :: a) (line :: b) := by
  cases h with
  | refl => exact .refl _
  | passes lines resolved total n m => exact .passes (line :: lines) resolved total n m

section

variable (base : UInt64) (t : AddressTable)

theorem entryLine_scanCount (n : Nat) : entryLine base { t with scanCount := n } =
    entryLine base t := by
  funext e
  unfold entryLine pointerText
  rw [AddressTable.readPointer_scanCount]

theorem reportLines_eq :
    reportLines base t = ("" :: t.registry.all.filterMap (entryLine base t) ++ [""])
      ++ [summary t.report.resolved.length
        (t.report.resolved.length + t.report.failed.length) t.scanCount] := by
  rw [List.append_assoc]
  rfl

theorem sameReport_reportLines (n : Nat) :
    SameReport (reportLines base t) (reportLines base { t with scanCount := n }) := by
  rw [reportLines_eq, reportLines_eq, entryLine_scanCount base t n]
  exact .passes _ _ _ _ _

end

/-! ## The cache of the second run -/

/-- What a cache file holds before and after a run: nothing, or the same addresses, whose
age stays as it is if there are any. -/
def SameCache (before after : Except FileFault ByteArray) : Prop :=
  (before = .error .notFound ∧ after = .error .notFound) ∨
    ∃ c c', AddressCache.load before = some c ∧ AddressCache.load after = some c'
      ∧ c'.version = c.version ∧ c'.addresses = c.addresses
      ∧ (c.addresses.pairs ≠ [] → c'.createdAt = c.createdAt)

section

variable {read : String → Except FileFault ByteArray} {now now' : Instant} {r : Request}
  {path version : String} {base : UInt64} {t : AddressTable} {o o' : Outcome} {c : AddressCache}

/-- Two runs that scan: what the first writes, the second writes with its own age. -/
theorem sameCache_of_scan (hnone : read path = .error .notFound) (hsaved : o.ReadsBack)
    (hsaved' : o'.ReadsBack)
    (hwrite : o.write = (refreshed none now version base t).map fun c => (path, c))
    (hwrite' : o'.write = (refreshed none now' version base t).map fun c => (path, c))
    (hempty : ∀ c, refreshed none now version base t = some c → c.addresses.pairs = []) :
    SameCache (o.files read path) (o'.files (o.files read) path) := by
  cases hc : refreshed none now version base t with
  | none =>
    rw [hc, Option.map_none] at hwrite
    rw [refreshed_eq_none_iff.2 (refreshed_eq_none_iff.1 hc), Option.map_none] at hwrite'
    rw [Outcome.files_of_write_none hwrite, Outcome.files_of_write_none hwrite']
    exact .inl ⟨hnone, hnone⟩
  | some c =>
    obtain ⟨hcount, hresolved, hcapture⟩ := refreshed_eq_some_iff.1 hc
    have hc' : refreshed none now' version base t = some (.capture version now' t.registry base) :=
      refreshed_eq_some_iff.2 ⟨hcount, hresolved, rfl⟩
    rw [hc, Option.map_some] at hwrite
    rw [hc', Option.map_some] at hwrite'
    refine .inr ⟨c, _, hsaved.load_files hwrite read, hsaved'.load_files hwrite' _, ?_, ?_, ?_⟩
    · rw [← hcapture]
      rfl
    · rw [← hcapture]
      rfl
    · intro hne
      exact absurd (hempty c hc) hne

/-- A run that was primed writes the cache that primed it, if it writes any. -/
theorem sameCache_of_primed (hload : AddressCache.load (read path) = some c)
    (hsaved : o.ReadsBack)
    (hwrite : o.write = (refreshed (some c) now version base t).map fun c => (path, c))
    (hcapture : .capture version c.createdAt t.registry base = c) :
    SameCache (read path) (o.files read path) := by
  refine .inr ⟨c, c, hload, ?_, rfl, rfl, fun _ => rfl⟩
  cases hc : refreshed (some c) now version base t with
  | none =>
    rw [hc, Option.map_none] at hwrite
    rwa [Outcome.files_of_write_none hwrite]
  | some c' =>
    obtain ⟨-, -, hcapture'⟩ := refreshed_eq_some_iff.1 hc
    obtain rfl : c = c' := hcapture.symm.trans hcapture'
    rw [hc, Option.map_some] at hwrite
    exact hsaved.load_files hwrite read

/-! ## The second run -/

/-- How a run compares with the run before it, which found no cache at `path`: `o` is the
first outcome and `o'` the second. -/
structure Repeats (read : String → Except FileFault ByteArray) (path : String)
    (o o' : Outcome) : Prop where
  /-- At most the numbers of passes differ in what is printed. -/
  lines : SameReport o.lines o'.lines
  failure_eq : o'.failure = o.failure
  cache : SameCache (o.files read path) (o'.files (o.files read) path)

/-- What a cache of a pass does to the session as it was before: it is of no use, or leads to
the same entries. -/
theorem applyCache_capture (h : WellFormed t) (hfresh : t.registry.Fresh)
    (hage : now'.since now ≤ AddressCache.maxAge)
    (hc : .capture version now t.runPass.registry base = c) :
    (c.addresses.pairs = [] ∧ applyCache (some c) now' version base t = (none, t)) ∨
      ∃ t', applyCache (some c) now' version base t = (some c, t')
        ∧ t'.runPass = { t.runPass with scanCount := t'.runPass.scanCount } := by
  subst hc
  by_cases haddresses :
      (AddressCache.capture version now t.runPass.registry base).addresses.pairs = []
  · refine .inl ⟨haddresses, ?_⟩
    simp [applyCache, AddressCache.isValidFor, haddresses]
  · have hvalid : (AddressCache.capture version now t.runPass.registry base).isValidFor now'
        version = true :=
      AddressCache.isValidFor_iff.2 ⟨rfl, hage, haddresses⟩
    have hcount := AddressCache.count_apply_capture version now base h hfresh haddresses
    refine .inr ⟨_, ?_, AddressCache.runPass_apply_capture version now base h⟩
    simp only [applyCache, hvalid, if_true, if_neg hcount]

/-- The second run scans, since the first one left no address, or it is primed. -/
theorem applyCache_files (h : WellFormed t) (hfresh : t.registry.Fresh)
    (hage : now'.since now ≤ AddressCache.maxAge) (hnone : read path = .error .notFound)
    (hsaved : o.ReadsBack)
    (hwrite : o.write = (refreshed none now version base t.runPass).map fun c => (path, c)) :
    (applyCache (AddressCache.load (o.files read path)) now' version base t = (none, t)
        ∧ ∀ c, refreshed none now version base t.runPass = some c → c.addresses.pairs = []) ∨
      ∃ c t', AddressCache.load (o.files read path) = some c
        ∧ .capture version c.createdAt t.runPass.registry base = c
        ∧ applyCache (some c) now' version base t = (some c, t')
        ∧ t'.runPass = { t.runPass with scanCount := t'.runPass.scanCount } := by
  cases hc : refreshed none now version base t.runPass with
  | none =>
    rw [hc, Option.map_none] at hwrite
    rw [Outcome.files_of_write_none hwrite, hnone]
    exact .inl ⟨rfl, fun c h => by simp at h⟩
  | some c =>
    obtain ⟨-, -, hcapture⟩ := refreshed_eq_some_iff.1 hc
    rw [hc, Option.map_some] at hwrite
    have hload := hsaved.load_files hwrite read
    rcases applyCache_capture h hfresh hage hcapture with ⟨hempty, hunused⟩ | ⟨t', hused, hpass⟩
    · rw [hload]
      refine .inl ⟨hunused, fun c' h => ?_⟩
      obtain rfl := Option.some.inj h
      exact hempty
    · refine .inr ⟨c, t', hload, ?_, hused, hpass⟩
      rw [← hcapture]
      rfl

theorem repeats_report (hcache : r.cache = some path) (hnone : read path = .error .notFound)
    (h : WellFormed t) (hfresh : t.registry.Fresh)
    (hage : now'.since now ≤ AddressCache.maxAge)
    (ho : report read now r version base t = o) (hsaved : o.ReadsBack)
    (ho' : report (o.files read) now' r version base t = o') (hsaved' : o'.ReadsBack) :
    Repeats read path o o' := by
  have hscan : applyCache (AddressCache.load (read path)) now version base t = (none, t) := by
    rw [hnone]
    rfl
  rw [report_eq hcache hscan] at ho
  have hwrite := (congrArg Outcome.write ho).symm
  rcases applyCache_files h hfresh hage hnone hsaved hwrite with
    ⟨hagain, hempty⟩ | ⟨c, t', hload, hcapture, hused, hpass⟩
  · rw [report_eq hcache hagain] at ho'
    have hwrite' := (congrArg Outcome.write ho').symm
    refine ⟨?_, ?_, sameCache_of_scan hnone hsaved hsaved' hwrite hwrite' hempty⟩
    · rw [← ho, ← ho']
      exact .refl _
    · rw [← ho, ← ho']
  · rw [← hload] at hused
    rw [report_eq hcache hused, hpass] at ho'
    have hwrite' := (congrArg Outcome.write ho').symm
    rw [hload] at hwrite'
    refine ⟨?_, ?_, sameCache_of_primed hload hsaved' hwrite' hcapture⟩
    · rw [← ho, ← ho']
      exact sameReport_reportLines base t.runPass _
    · rw [← ho, ← ho']
      rfl

theorem Repeats.cons (h : Repeats read path o o') (line : String) :
    Repeats read path { o with lines := line :: o.lines }
      { o' with lines := line :: o'.lines } where
  lines := h.lines.cons line
  failure_eq := h.failure_eq
  cache := h.cache

/-- A command that is run again within a day, on the files that it left, repeats what it said
and leaves the cache as it is. -/
theorem reruns (hcache : r.cache = some path) (hnone : read path = .error .notFound)
    (hage : now'.since now ≤ AddressCache.maxAge) (hsaved : (run read now r).ReadsBack)
    (hsaved' : (run ((run read now r).files read) now' r).ReadsBack) :
    Repeats read path (run read now r) (run ((run read now r).files read) now' r) := by
  cases hprepare : prepare read r with
  | error failure =>
    have ho : ∀ now, run read now r = .failed failure := fun now => by rw [run, hprepare]
    have hfiles := Outcome.files_of_write_none (congrArg Outcome.write (ho now)) read
    rw [hfiles, ho, ho]
    exact ⟨.refl _, rfl, .inl ⟨hnone, hnone⟩⟩
  | ok s =>
    -- The second run has the same files to work on, since the cache is none of them.
    have hsame : ∀ other bytes, read other = .ok bytes →
        (run read now r).files read other = .ok bytes := by
      intro other bytes hread
      have hne : other ≠ path := by
        rintro rfl
        simp [hnone] at hread
      rw [files_run_of_ne hcache hne, hread]
    have ho := run_eq_of_prepare hprepare now
    have ho' := run_eq_of_prepare (prepare_congr hprepare hsame) now'
    rw [ho'] at hsaved' ⊢
    rw [ho] at hsaved hsaved' ⊢
    exact (repeats_report hcache hnone (wellFormed_session hprepare r.settings)
      (fresh_session hprepare r.settings) hage rfl hsaved rfl hsaved').cons s.banner

end

/-- A set of two signatures, of which the dump has one. -/
def rerunFiles : String → Except FileFault ByteArray
  | "s" => .ok ("\x7b\"version\": \"1\", \"signatures\": [" ++
      "\x7b\"name\": \"A\", \"pattern\": \"AA BB\"\x7d, " ++
      "\x7b\"name\": \"B\", \"pattern\": \"CC\"\x7d]\x7d").toUTF8
  | "d" => .ok ⟨#[0x90, 0xAA, 0xBB]⟩
  | _ => .error .notFound

def rerunRequest : Request := ⟨"s", .dump "d" 0x1000, some "c", ⟨16, false⟩⟩

def rerunCache : AddressCache := ⟨"1", .ofClock 0 0, ⟨[("A", 1)], by decide⟩⟩

/-- The files after a first run. -/
def rerunLeft : String → Except FileFault ByteArray :=
  (run rerunFiles (.ofClock 0 0) rerunRequest).files rerunFiles

/-- The first run writes a cache with the one address that it finds. The second run, an hour
later, is primed with it and scans for the other, which again fails. -/
theorem reruns_incomplete :
    (run rerunFiles (.ofClock 0 0) rerunRequest).failure = some (.incomplete 1 2)
    ∧ (run rerunFiles (.ofClock 0 0) rerunRequest).write = some ("c", rerunCache)
    ∧ (∃ s, prepare rerunLeft rerunRequest = .ok s
        ∧ (s.primed rerunLeft (.ofClock 3600 0) rerunRequest).registry.all.map
            (fun e => (e.name, e.state)) = [("A", .resolved 0x1001), ("B", .unresolved)])
    ∧ Repeats rerunFiles "c" (run rerunFiles (.ofClock 0 0) rerunRequest)
        (run rerunLeft (.ofClock 3600 0) rerunRequest) := by
  have hwrite : (run rerunFiles (.ofClock 0 0) rerunRequest).write = some ("c", rerunCache) := by
    decide +kernel
  have hwrite' : (run rerunLeft (.ofClock 3600 0) rerunRequest).write =
      some ("c", rerunCache) := by
    decide +kernel
  have hreads : AddressCache.load (.ok rerunCache.toJson.toUTF8) = some rerunCache := by
    decide +kernel
  have hprimed : (prepare rerunLeft rerunRequest).toOption.map (fun s =>
      (s.primed rerunLeft (.ofClock 3600 0) rerunRequest).registry.all.map
        fun e => (e.name, e.state)) = some [("A", .resolved 0x1001), ("B", .unresolved)] := by
    decide +kernel
  refine ⟨by decide +kernel, hwrite, ?_, ?_⟩
  · cases hprepare : prepare rerunLeft rerunRequest with
    | error failure => simp [hprepare, Except.toOption] at hprimed
    | ok s =>
      rw [hprepare] at hprimed
      exact ⟨s, rfl, Option.some.inj hprimed⟩
  · exact reruns rfl rfl (by decide) (Outcome.readsBack_of_write hwrite hreads)
      (Outcome.readsBack_of_write hwrite' hreads)

end Scan

end Command

end SigScan
