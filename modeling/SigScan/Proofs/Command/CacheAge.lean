/-
SigScan.Proofs.Command.CacheAge — how old cached addresses can be.

Runs of the command that share a cache file hand addresses on to each other. A run that is
primed and scans as well writes old and new addresses into one file, so the file must keep
the age of the oldest of them. The invariant of a sequence of runs says that each address
in the file comes out of a pass that is not older than the file says and that scanned for
the version of the file (`Stored`); a run keeps it (`stored_files`). Since a cache is
trusted for a day, no run is primed with an older address (`keepsAge`).
-/
import SigScan.Proofs.Command.Run

namespace SigScan.Command.Scan

/-! ## Runs that share a cache file -/

/-- A run of the command: the files that it finds, the time, and what is asked for. -/
structure Invocation where
  read : String → Except FileFault ByteArray
  now : Instant
  request : Request

namespace Invocation

def outcome (i : Invocation) : Outcome :=
  run i.read i.now i.request

/-- The session of a run before its cache is applied. -/
def session (i : Invocation) (s : Setup) : AddressTable :=
  s.session i.request.settings

/-- What a run starts from: the cache, if it primed any entry, and the session. -/
def start (i : Invocation) (s : Setup) : Option AddressCache × AddressTable :=
  applyCache (i.request.cache.bind fun path => AddressCache.load (i.read path)) i.now s.version
    s.base (i.session s)

/-- The entry of a name was pending when the pass of the run started, and the pass found it
at an offset from the base. -/
def Scanned (i : Invocation) (version name : String) (offset : UInt64) : Prop :=
  ∃ s e e', prepare i.read i.request = .ok s ∧ s.version = version
    ∧ (i.start s).2.registry.find? name = some e ∧ e.isSettled = false
    ∧ (i.start s).2.runPass.registry.find? name = some e'
    ∧ AddressCache.offset? s.base e' = some offset

/-- The entry of a name was primed with an address before the pass of the run. -/
def Primed (i : Invocation) (s : Setup) (name : String) (address : UInt64) : Prop :=
  ∃ e e', prepare i.read i.request = .ok s
    ∧ (i.session s).registry.find? name = some e ∧ e.isSettled = false
    ∧ (i.start s).2.registry.find? name = some e' ∧ e'.state = .resolved address

variable {i : Invocation} {path : String} {s : Setup}

theorem start_cases (hcache : i.request.cache = some path) (s : Setup) :
    i.start s = (none, i.session s) ∨
      ∃ c, AddressCache.load (i.read path) = some c ∧ c.isValidFor i.now s.version = true
        ∧ i.start s = (some c, (c.apply (i.session s) s.base).2) := by
  unfold start
  rw [hcache, Option.bind_some]
  exact applyCache_cases _ i.now s.version s.base (i.session s)

theorem write_outcome (hprepare : prepare i.read i.request = .ok s)
    (hcache : i.request.cache = some path) :
    i.outcome.write =
      (refreshed (i.start s).1 i.now s.version s.base (i.start s).2.runPass).map
        fun c => (path, c) := by
  have hstart : applyCache (AddressCache.load (i.read path)) i.now s.version s.base
      (i.session s) = i.start s := by
    rw [start, hcache, Option.bind_some]
  rw [outcome, run_eq_of_prepare hprepare]
  exact congrArg Outcome.write (report_eq hcache hstart)

theorem wellFormed_start (hprepare : prepare i.read i.request = .ok s)
    (hcache : i.request.cache = some path) : WellFormed (i.start s).2 := by
  have hsession := wellFormed_session hprepare i.request.settings
  rcases i.start_cases hcache s with hstart | ⟨c, -, -, hstart⟩
  · rw [hstart]
    exact hsession
  · rw [hstart]
    exact hsession.applyCache c s.base

end Invocation

/-- How a run follows those before it: it uses the same cache file, finds there what they
left, and is not earlier than any of them. -/
structure Follows (path : String) (past : List Invocation)
    (contents : Except FileFault ByteArray) (i : Invocation) : Prop where
  cache_eq : i.request.cache = some path
  read_eq : i.read path = contents
  clock : ∀ j ∈ past, 0 ≤ i.now.since j.now
  readsBack : i.outcome.ReadsBack

/-- Sequences of runs that share a cache file, which is not there at first, and what reading
it gives in the end. Between the runs all other files may change. -/
inductive Runs (path : String) : List Invocation → Except FileFault ByteArray → Prop where
  | nil : Runs path [] (.error .notFound)
  | snoc {past : List Invocation} {contents : Except FileFault ByteArray} {i : Invocation}
      (h : Runs path past contents) (hi : Follows path past contents i) :
      Runs path (past ++ [i]) (i.outcome.files i.read path)

/-- Each run of a sequence follows those before it. -/
theorem Runs.follows {path : String} {runs : List Invocation}
    {contents : Except FileFault ByteArray} (h : Runs path runs contents) :
    ∀ {before i after}, runs = before ++ i :: after →
      ∃ contents', Runs path before contents' ∧ Follows path before contents' i := by
  induction h with
  | nil =>
    intro before i after heq
    simp at heq
  | @snoc past contents k h hk ih =>
    intro before i after heq
    rcases List.eq_nil_or_concat after with rfl | ⟨after, last, rfl⟩
    · obtain ⟨rfl, hki⟩ := List.append_inj' heq rfl
      obtain rfl := List.singleton_inj.1 hki
      exact ⟨contents, h, hk⟩
    · rw [List.concat_eq_append, ← List.cons_append, ← List.append_assoc] at heq
      exact ih (List.append_inj' heq rfl).1

/-! ## Where addresses come from -/

section

variable {t : AddressTable} {base : UInt64} {c : AddressCache} {name version : String}
  {createdAt : Instant} {offset : UInt64} {e : Entry}

/-- What is settled before a pass in a session that had no outcomes comes out of the cache. -/
theorem mem_pairs_of_isSettled (hfresh : t.registry.Fresh)
    (hf : (c.apply t base).2.registry.find? name = some e) (hs : e.isSettled = true) :
    ∃ offset, (name, offset) ∈ c.addresses.pairs
      ∧ e.state = .resolved (AddressCache.place base offset) := by
  rw [AddressCache.find?_apply] at hf
  obtain ⟨e₀, hf₀, rfl⟩ := Option.map_eq_some_iff.1 hf
  have hunsettled := hfresh.isSettled_eq_false hf₀
  cases ho : c.addresses.find? name with
  | none =>
    simp only [ho] at hs
    rw [hunsettled] at hs
    contradiction
  | some offset =>
    refine ⟨offset, NameTable.mem_pairs_of_find? ho, ?_⟩
    simp only [Entry.settle_of_not_isSettled hunsettled]

theorem offset?_of_resolved {stored : UInt64}
    (hs : e.state = .resolved (AddressCache.place base stored))
    (ho : AddressCache.offset? base e = some offset) : offset = stored := by
  have hstate := AddressCache.place_offset ho
  rw [hs] at hstate
  have hplace := EntryState.resolved.inj hstate
  unfold AddressCache.place at hplace
  exact (UInt64.add_right_inj base).1 hplace.symm

/-- What a cache of a pass holds is the address of an entry after the pass, which the pass
left alone if it was settled. -/
theorem exists_of_mem_capture (h : WellFormed t)
    (hmem : (name, offset) ∈
      (AddressCache.capture version createdAt t.runPass.registry base).addresses.pairs) :
    ∃ e e', t.registry.find? name = some e ∧ t.runPass.registry.find? name = some e'
      ∧ AddressCache.offset? base e' = some offset ∧ (e.isSettled = true → e' = e) := by
  have hfind := NameTable.find?_of_mem_pairs hmem
  rw [AddressCache.find?_capture h.runPass] at hfind
  obtain ⟨e', hf', ho⟩ := Option.bind_eq_some_iff.1 hfind
  have hpass := Session.find?_runPass t name
  rw [hf'] at hpass
  obtain ⟨e, hf, he⟩ := Option.map_eq_some_iff.1 hpass.symm
  exact ⟨e, e', hf, hf', ho, fun hs => he.symm.trans (Entry.settle_of_isSettled hs _)⟩

end

/-! ## The age of what is stored -/

/-- What is known of a cache file: it is not there, or each of its addresses comes out of a
pass for its version that is not older than the file. -/
def Stored (past : List Invocation) (contents : Except FileFault ByteArray) : Prop :=
  contents = .error .notFound ∨ ∃ c, AddressCache.load contents = some c
    ∧ ∀ name offset, (name, offset) ∈ c.addresses.pairs →
      ∃ j ∈ past, j.Scanned c.version name offset ∧ 0 ≤ j.now.since c.createdAt

section

variable {path : String} {past : List Invocation} {contents : Except FileFault ByteArray}
  {i : Invocation} {s : Setup} {c : AddressCache}

theorem Stored.append (h : Stored past contents) (i : Invocation) :
    Stored (past ++ [i]) contents := by
  refine h.imp id ?_
  rintro ⟨c, hload, hscanned⟩
  refine ⟨c, hload, fun name offset hmem => ?_⟩
  obtain ⟨j, hj, hscan⟩ := hscanned name offset hmem
  exact ⟨j, List.mem_append_left _ hj, hscan⟩

theorem Stored.scanned (h : Stored past contents) (hload : AddressCache.load contents = some c)
    {name : String} {offset : UInt64} (hmem : (name, offset) ∈ c.addresses.pairs) :
    ∃ j ∈ past, j.Scanned c.version name offset ∧ 0 ≤ j.now.since c.createdAt := by
  rcases h with rfl | ⟨c', hload', hscanned⟩
  · simp [AddressCache.load_error] at hload
  · obtain rfl := Option.some.inj (hload'.symm.trans hload)
    exact hscanned name offset hmem

/-- A cache is not written with a later time than that of the run. -/
theorem age_start (hold : Stored past contents) (hi : Follows path past contents i) (s : Setup) :
    0 ≤ i.now.since (((i.start s).1.map AddressCache.createdAt).getD i.now) := by
  rcases i.start_cases hi.cache_eq s with hstart | ⟨c, hload, hvalid, hstart⟩
  · rw [hstart]
    exact Int.le_of_eq (Instant.since_self i.now).symm
  · -- A cache that primed something holds an address, which an earlier run scanned.
    obtain ⟨-, -, haddresses⟩ := AddressCache.isValidFor_iff.1 hvalid
    obtain ⟨⟨name, offset⟩, hmem⟩ := List.exists_mem_of_ne_nil _ haddresses
    rw [hi.read_eq] at hload
    obtain ⟨j, hj, -, hage⟩ := hold.scanned hload hmem
    have hclock := hi.clock j hj
    rw [hstart]
    exact Instant.since_nonneg_trans hclock hage

/-- What is settled when the pass of a run starts was scanned by an earlier run, for the same
version and within the last day. -/
theorem scanned_of_isSettled (hold : Stored past contents) (hi : Follows path past contents i)
    (hprepare : prepare i.read i.request = .ok s) {name : String} {e : Entry}
    (hf : (i.start s).2.registry.find? name = some e) (he : e.isSettled = true) :
    ∃ c offset j, (i.start s).1 = some c
      ∧ e.state = .resolved (AddressCache.place s.base offset)
      ∧ j ∈ past ∧ j.Scanned s.version name offset ∧ 0 ≤ j.now.since c.createdAt
      ∧ i.now.since j.now ≤ AddressCache.maxAge := by
  have hfresh := fresh_session hprepare i.request.settings
  rcases i.start_cases hi.cache_eq s with hstart | ⟨c, hload, hvalid, hstart⟩
  · rw [hstart] at hf
    rw [hfresh.isSettled_eq_false hf] at he
    contradiction
  · rw [hstart] at hf
    obtain ⟨offset, hmem, hstate⟩ := mem_pairs_of_isSettled hfresh hf he
    obtain ⟨hversion, htrusted, -⟩ := AddressCache.isValidFor_iff.1 hvalid
    rw [hi.read_eq] at hload
    obtain ⟨j, hj, hscan, hage⟩ := hold.scanned hload hmem
    exact ⟨c, offset, j, by rw [hstart], hstate, hj, hversion ▸ hscan, hage,
      Instant.since_le_day htrusted hage⟩

/-- A run keeps what is known of the cache file. -/
theorem stored_files (hold : Stored past contents) (hi : Follows path past contents i) :
    Stored (past ++ [i]) (i.outcome.files i.read path) := by
  have hkept : i.outcome.write = none → Stored (past ++ [i]) (i.outcome.files i.read path) := by
    intro hwrite
    rw [Outcome.files_of_write_none hwrite, hi.read_eq]
    exact hold.append i
  cases hprepare : prepare i.read i.request with
  | error failure =>
    refine hkept ?_
    rw [Invocation.outcome, run, hprepare]
    rfl
  | ok s =>
    have hwrite := i.write_outcome hprepare hi.cache_eq
    cases hc : refreshed (i.start s).1 i.now s.version s.base (i.start s).2.runPass with
    | none => exact hkept (by rw [hwrite, hc, Option.map_none])
    | some c =>
      rw [hc, Option.map_some] at hwrite
      refine .inr ⟨c, hi.readsBack.load_files hwrite i.read, fun name offset hmem => ?_⟩
      obtain ⟨-, -, rfl⟩ := refreshed_eq_some_iff.1 hc
      obtain ⟨e, e', hf, hf', ho, hsame⟩ :=
        exists_of_mem_capture (i.wellFormed_start hprepare hi.cache_eq) hmem
      cases he : e.isSettled with
      | false =>
        exact ⟨i, List.mem_append_right _ (List.mem_singleton_self i),
          ⟨s, e, e', hprepare, rfl, hf, he, hf', ho⟩, age_start hold hi s⟩
      | true =>
        -- The pass left this entry alone: its address is that of an earlier run.
        obtain rfl := hsame he
        obtain ⟨c, stored, j, hstart, hstate, hj, hscan, hage, -⟩ :=
          scanned_of_isSettled hold hi hprepare hf he
        obtain rfl := offset?_of_resolved hstate ho
        refine ⟨j, List.mem_append_left _ hj, hscan, ?_⟩
        rw [hstart]
        exact hage

theorem stored_of_runs (h : Runs path past contents) : Stored past contents := by
  induction h with
  | nil => exact .inl rfl
  | snoc _ hi ih => exact stored_files ih hi

/-! ## All runs -/

/-- What a cache file keeps of the time over a sequence of runs. -/
structure KeepsAge (runs : List Invocation) (contents : Except FileFault ByteArray) : Prop where
  /-- If there is a cache, its addresses come out of passes for its version, none of them in a
  run before the time that the cache was made. -/
  stored : Stored runs contents
  /-- What a run is primed with comes out of a pass of an earlier run, for the same version and
  at most a day before. -/
  primed : ∀ before i after, runs = before ++ i :: after → ∀ s name address,
    i.Primed s name address → ∃ j ∈ before, ∃ offset,
      address = AddressCache.place s.base offset ∧ j.Scanned s.version name offset
        ∧ i.now.since j.now ≤ AddressCache.maxAge

/-- Cached addresses do not outlive a day, however many runs hand them on. -/
theorem keepsAge (h : Runs path past contents) : KeepsAge past contents where
  stored := stored_of_runs h
  primed before i after hpast s name address := by
    rintro ⟨-, e, hprepare, -, -, hf, hstate⟩
    obtain ⟨contents', hbefore, hi⟩ := h.follows hpast
    have he : e.isSettled = true := by rw [Entry.isSettled, hstate]
    obtain ⟨-, offset, j, -, hplace, hj, hscan, -, hage⟩ :=
      scanned_of_isSettled (stored_of_runs hbefore) hi hprepare hf he
    exact ⟨j, hj, offset, EntryState.resolved.inj (hstate.symm.trans hplace), hscan, hage⟩

end

/-- A set of signatures, a dump of three bytes, and what is left of a cache. -/
def sharedFiles (signatures : String) (cache : Except FileFault ByteArray) :
    String → Except FileFault ByteArray
  | "s" => .ok signatures.toUTF8
  | "d" => .ok ⟨#[0x90, 0xAA, 0xBB]⟩
  | "c" => cache
  | _ => .error .notFound

theorem sharedFiles_cache (signatures : String) (cache : Except FileFault ByteArray) :
    sharedFiles signatures cache "c" = cache := rfl

def firstRun : Invocation where
  read := sharedFiles ("\x7b\"version\": \"1\", \"signatures\": [" ++
    "\x7b\"name\": \"A\", \"pattern\": \"AA BB\"\x7d]\x7d") (.error .notFound)
  now := { seconds := 0 }
  request := ⟨"s", .dump "d" 0x1000, some "c", ⟨16, false⟩⟩

/-- The module has moved, and there is a second signature. -/
def secondRun : Invocation where
  read := sharedFiles ("\x7b\"version\": \"1\", \"signatures\": [" ++
    "\x7b\"name\": \"A\", \"pattern\": \"AA BB\"\x7d, " ++
    "\x7b\"name\": \"B\", \"pattern\": \"90\"\x7d]\x7d")
    (firstRun.outcome.files firstRun.read "c")
  now := { seconds := 23 * 3600 }
  request := ⟨"s", .dump "d" 0x5000, some "c", ⟨16, false⟩⟩

/-- What was scanned by both runs stands in a file that is as old as the first one. -/
theorem keepsAge_moved :
    secondRun.outcome.write =
        some ("c", ⟨"1", { seconds := 0 }, ⟨[("A", 1), ("B", 0)], by decide⟩⟩) ∧
      KeepsAge [firstRun, secondRun] (secondRun.outcome.files secondRun.read "c") := by
  have hwrite : firstRun.outcome.write =
      some ("c", ⟨"1", { seconds := 0 }, ⟨[("A", 1)], by decide⟩⟩) := by
    decide +kernel
  have hwrite' : secondRun.outcome.write =
      some ("c", ⟨"1", { seconds := 0 }, ⟨[("A", 1), ("B", 0)], by decide⟩⟩) := by
    decide +kernel
  have hfirst : Follows "c" [] (.error .notFound) firstRun :=
    { cache_eq := rfl
      read_eq := rfl
      clock := fun j hj => by simp at hj
      readsBack := Outcome.readsBack_of_write hwrite (by decide +kernel) }
  have hsecond : Follows "c" [firstRun] (firstRun.outcome.files firstRun.read "c") secondRun :=
    { cache_eq := rfl
      read_eq := by simp only [secondRun, sharedFiles_cache]
      clock := fun j hj => by
        obtain rfl := List.mem_singleton.1 hj
        decide
      readsBack := Outcome.readsBack_of_write hwrite' (by decide +kernel) }
  have hruns := Runs.snoc (Runs.snoc Runs.nil hfirst) hsecond
  exact ⟨hwrite', keepsAge hruns⟩

end SigScan.Command.Scan
