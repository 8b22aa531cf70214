/-
SigScan.Proofs.Scan.Merging — tallies of regions, merged in whatever way.

Regions are tallied side by side, for all signatures at once, and the tallies of
neighbouring parts are merged as they come in. Which parts are merged first, and where a
part starts from empty tallies, is left to whoever divides the work: a `Reduction` is one
way to do so. All ways give the tallies that merging from left to right gives
(`Reduction.run_eq`), since merging is associative.

Merging does not commute, because of two matches at one address it keeps the left one. But
a tally counts nothing exactly if it keeps no match (`Built.sound`), so two parts may only
differ in order where they count two matches or more, and then no match is told. Tallies
that say the same in this sense are `Alike`, and the results do not depend on the order of
the regions (`map_result_totalEach_of_perm`). `orderFree` puts these together.
-/
import SigScan.Proofs.Scan.Occurrence

namespace SigScan.Scan

namespace Tally

/-! ## Built tallies -/

/-- Recording and merging build the tally out of the matches, in their order. -/
inductive Built : List Match → Tally → Prop where
  | empty : Built [] .empty
  | record {found : List Match} {t : Tally} (a : Match) :
      Built found t → Built (found ++ [a]) (t.record a)
  | merge {as bs : List Match} {a b : Tally} :
      Built as a → Built bs b → Built (as ++ bs) (a.merge b)

/-- A tally counts nothing exactly if it keeps no match. -/
def Sound (t : Tally) : Prop :=
  t.count = 0 ↔ t.first = none

section

variable {found : List Match} {t a b c : Tally}

theorem Built.eq_ofMatches (h : Built found t) : t = ofMatches found := by
  induction h with
  | empty => rfl
  | record a _ ih =>
    rw [ofMatches_append, record_eq_merge, ih]
    rfl
  | merge _ _ iha ihb => rw [ofMatches_append, iha, ihb]

theorem Built.foldl_record (h : Built found t) (more : List Match) :
    Built (found ++ more) (more.foldl Tally.record t) := by
  induction more generalizing found t with
  | nil => simpa using h
  | cons a more ih => simpa using ih (h.record a)

theorem Built.sound (h : Built found t) : t.Sound := by
  have hcount := count_ofMatches found
  have hfirst := isSome_first_ofMatches found
  rw [← h.eq_ofMatches] at hcount hfirst
  have hnone : t.first = none ↔ t.first.isSome = false := by simp
  rw [Sound, hcount, List.length_eq_zero_iff, hnone, hfirst]
  simp

/-- A built tally tells of a match exactly if that is the one match it was built of. -/
theorem Built.result_eq_unique_iff (h : Built found t) {a : Match} :
    t.result = .unique a ↔ found = [a] := by
  rw [h.eq_ofMatches, result_ofMatches]
  match found with
  | [] => simp
  | [b] => simp
  | b :: c :: rest => simp

/-! ## Tallies that say the same -/

/-- Both count as many matches, and they are the same tally where that is one at most. -/
def Alike (a b : Tally) : Prop :=
  a.count = b.count ∧ (a.count ≤ 1 → a = b)

theorem Alike.refl (t : Tally) : Alike t t :=
  ⟨rfl, fun _ => rfl⟩

theorem Alike.trans (hab : Alike a b) (hbc : Alike b c) : Alike a c :=
  ⟨hab.1.trans hbc.1, fun h => (hab.2 h).trans (hbc.2 (hab.1 ▸ h))⟩

theorem Alike.merge_left (h : Alike a b) (t : Tally) : Alike (t.merge a) (t.merge b) := by
  obtain ⟨hcount, heq⟩ := h
  refine ⟨congrArg (t.count + ·) hcount, fun hle => ?_⟩
  have hle' : t.count + a.count ≤ 1 := hle
  rw [heq (by omega)]

theorem Alike.merge_right (h : Alike a b) (t : Tally) : Alike (a.merge t) (b.merge t) := by
  obtain ⟨hcount, heq⟩ := h
  refine ⟨congrArg (· + t.count) hcount, fun hle => ?_⟩
  have hle' : a.count + t.count ≤ 1 := hle
  rw [heq (by omega)]

/-- A sound tally that has counted nothing has kept no match. -/
theorem Sound.eq_empty (h : t.Sound) (hcount : t.count = 0) : t = empty := by
  obtain ⟨count, first⟩ := t
  obtain rfl : count = 0 := hcount
  obtain rfl : first = none := h.1 rfl
  rfl

theorem Sound.merge (ha : a.Sound) (hb : b.Sound) : (a.merge b).Sound := by
  have hlower : lower a.first b.first = none ↔ a.first = none ∧ b.first = none := by
    cases a.first with
    | none => simp [lower]
    | some x =>
      cases b.first with
      | none => simp [lower]
      | some y => simp only [lower]; split <;> simp
  have hcount : a.count + b.count = 0 ↔ a.count = 0 ∧ b.count = 0 := by omega
  exact hcount.trans ((and_congr ha hb).trans hlower.symm)

/-- Which of two parts stands first matters only for a match that is not told. -/
theorem alike_merge_comm (ha : a.Sound) (hb : b.Sound) : Alike (a.merge b) (b.merge a) := by
  refine ⟨Nat.add_comm _ _, fun hle => ?_⟩
  have hle' : a.count + b.count ≤ 1 := hle
  have hzero : a.count = 0 ∨ b.count = 0 := by omega
  rcases hzero with h | h
  · rw [ha.eq_empty h, empty_merge, merge_empty]
  · rw [hb.eq_empty h, empty_merge, merge_empty]

/-- Of several matches only the number is reported. -/
theorem Sound.result_of_one_lt (h : t.Sound) (hcount : 1 < t.count) :
    t.result = .ambiguous t.count := by
  obtain ⟨count, first⟩ := t
  cases first with
  | none =>
    have hzero : count = 0 := h.2 rfl
    simp [hzero] at hcount
  | some a =>
    match count, hcount with
    | n + 2, _ => rfl

/-- Tallies that a different order may bring about have the same result. -/
theorem Alike.result_eq (ha : a.Sound) (hb : b.Sound) (h : Alike a b) : a.result = b.result := by
  obtain ⟨hcount, heq⟩ := h
  by_cases hle : a.count ≤ 1
  · rw [heq hle]
  · rw [ha.result_of_one_lt (by omega), hb.result_of_one_lt (by omega), hcount]

/-! ## The tally of many parts -/

/-- The tally of parts, merged from left to right. -/
def total (parts : List Tally) : Tally :=
  parts.foldl merge empty

/-- Parts that are merged into a tally one after another are merged into their own total first. -/
theorem foldl_merge (t : Tally) (parts : List Tally) :
    parts.foldl merge t = t.merge (total parts) := by
  induction parts generalizing t with
  | nil => exact (merge_empty t).symm
  | cons a parts ih =>
    have htotal : total (a :: parts) = parts.foldl merge (empty.merge a) := rfl
    rw [List.foldl_cons, ih, htotal, ih, empty_merge, merge_assoc]

theorem total_cons (t : Tally) (parts : List Tally) :
    total (t :: parts) = t.merge (total parts) := by
  rw [total, List.foldl_cons, foldl_merge, empty_merge]

/-- A total of sound tallies is sound. -/
theorem sound_total {parts : List Tally} (h : ∀ t ∈ parts, t.Sound) : (total parts).Sound := by
  induction parts with
  | nil => exact Built.empty.sound
  | cons t parts ih =>
    rw [total_cons]
    exact (h t List.mem_cons_self).merge (ih fun u hu => h u (List.mem_cons_of_mem _ hu))

/-- Parts in another order have a tally that says the same. -/
theorem alike_total_of_perm {parts parts' : List Tally} (hperm : parts.Perm parts')
    (h : ∀ t ∈ parts, t.Sound) : Alike (total parts) (total parts') := by
  induction hperm with
  | nil => exact .refl _
  | cons t _ ih =>
    rw [total_cons, total_cons]
    exact (ih fun u hu => h u (List.mem_cons_of_mem _ hu)).merge_left t
  | swap t u rest =>
    rw [total_cons, total_cons, total_cons, total_cons, ← merge_assoc, ← merge_assoc]
    exact (alike_merge_comm (h u (by simp)) (h t (by simp))).merge_right _
  | trans hfirst _ ih ih' => exact (ih h).trans (ih' fun t ht => h t (hfirst.mem_iff.2 ht))

end

/-! ## Tallies for many signatures -/

/-- The tallies of two parts, merged signature by signature. -/
def mergeEach (as bs : List Tally) : List Tally :=
  List.zipWith merge as bs

/-- Empty tallies for `n` signatures. -/
def emptyEach (n : Nat) : List Tally :=
  List.replicate n empty

/-- The tallies of parts for `n` signatures, merged from left to right. -/
def totalEach (n : Nat) (parts : List (List Tally)) : List Tally :=
  parts.foldl mergeEach (emptyEach n)

section

variable {n : Nat} {as bs : List Tally} {parts parts' : List (List Tally)}

/-- Lists of tallies are merged place by place, so their merging is associative as well. -/
theorem mergeEach_assoc (as bs cs : List Tally) :
    mergeEach (mergeEach as bs) cs = mergeEach as (mergeEach bs cs) := by
  induction as generalizing bs cs with
  | nil => rfl
  | cons a as ih =>
    cases bs with
    | nil => rfl
    | cons b bs =>
      cases cs with
      | nil => rfl
      | cons c cs => exact List.cons_eq_cons.2 ⟨merge_assoc a b c, ih bs cs⟩

theorem emptyEach_mergeEach (h : as.length = n) : mergeEach (emptyEach n) as = as := by
  subst h
  induction as with
  | nil => rfl
  | cons a as ih => exact List.cons_eq_cons.2 ⟨empty_merge a, ih⟩

theorem mergeEach_emptyEach (h : as.length = n) : mergeEach as (emptyEach n) = as := by
  subst h
  induction as with
  | nil => rfl
  | cons a as ih => exact List.cons_eq_cons.2 ⟨merge_empty a, ih⟩

theorem length_mergeEach (ha : as.length = n) (hb : bs.length = n) :
    (mergeEach as bs).length = n := by
  rw [mergeEach, List.length_zipWith, ha, hb, Nat.min_self]

/-- Lists of one length are merged into a list as their total is. -/
theorem foldl_mergeEach (ha : as.length = n) (h : ∀ ts ∈ parts, ts.length = n) :
    parts.foldl mergeEach as = mergeEach as (totalEach n parts) := by
  induction parts generalizing as with
  | nil => exact (mergeEach_emptyEach ha).symm
  | cons ts parts ih =>
    have hts : ts.length = n := h ts List.mem_cons_self
    have hparts : ∀ us ∈ parts, us.length = n := fun us hus => h us (List.mem_cons_of_mem _ hus)
    have htotal : totalEach n (ts :: parts) = mergeEach ts (totalEach n parts) := by
      rw [totalEach, List.foldl_cons, emptyEach_mergeEach hts, ih hts hparts]
    rw [List.foldl_cons, ih (length_mergeEach ha hts) hparts, htotal, mergeEach_assoc]

theorem totalEach_cons {ts : List Tally} (h : ∀ us ∈ ts :: parts, us.length = n) :
    totalEach n (ts :: parts) = mergeEach ts (totalEach n parts) := by
  have hts : ts.length = n := h ts List.mem_cons_self
  rw [totalEach, List.foldl_cons, emptyEach_mergeEach hts,
    foldl_mergeEach hts fun us hus => h us (List.mem_cons_of_mem _ hus)]

theorem length_totalEach (h : ∀ ts ∈ parts, ts.length = n) : (totalEach n parts).length = n := by
  induction parts with
  | nil => exact List.length_replicate
  | cons ts parts ih =>
    rw [totalEach_cons h]
    exact length_mergeEach (h ts List.mem_cons_self)
      (ih fun us hus => h us (List.mem_cons_of_mem _ hus))

/-- Parts may be totalled in two halves. -/
theorem totalEach_append (h : ∀ ts ∈ parts ++ parts', ts.length = n) :
    totalEach n (parts ++ parts') = mergeEach (totalEach n parts) (totalEach n parts') := by
  have hparts : ∀ ts ∈ parts, ts.length = n := fun ts hts => h ts (List.mem_append_left _ hts)
  rw [totalEach, List.foldl_append]
  exact foldl_mergeEach (length_totalEach hparts) fun ts hts => h ts (List.mem_append_right _ hts)

/-- The merged tallies hold for each signature the tally of its own parts. -/
theorem getElem?_totalEach (h : ∀ ts ∈ parts, ts.length = n) {i : Nat} (hi : i < n) :
    (totalEach n parts)[i]? = some (total (parts.map fun ts => ts[i]?.getD empty)) := by
  induction parts with
  | nil => simp [totalEach, emptyEach, total, hi]
  | cons ts parts ih =>
    have hts : i < ts.length := by rwa [h ts List.mem_cons_self]
    have hrest := ih fun us hus => h us (List.mem_cons_of_mem _ hus)
    rw [totalEach_cons h, mergeEach, List.getElem?_zipWith, hrest, List.map_cons, total_cons,
      List.getElem?_eq_getElem hts, Option.getD_some]

/-- The results do not depend on the order of the parts. -/
theorem map_result_totalEach_of_perm (hperm : parts.Perm parts')
    (h : ∀ ts ∈ parts, ts.length = n) (hsound : ∀ ts ∈ parts, ∀ t ∈ ts, t.Sound) :
    (totalEach n parts).map result = (totalEach n parts').map result := by
  have h' : ∀ ts ∈ parts', ts.length = n := fun ts hts => h ts (hperm.mem_iff.2 hts)
  refine List.ext_getElem? fun i => ?_
  rw [List.getElem?_map, List.getElem?_map]
  by_cases hi : i < n
  · have hcolumn : ∀ t ∈ parts.map fun ts => ts[i]?.getD empty, t.Sound := by
      intro t ht
      obtain ⟨ts, hts, rfl⟩ := List.mem_map.1 ht
      have hlt : i < ts.length := by rwa [h ts hts]
      rw [List.getElem?_eq_getElem hlt, Option.getD_some]
      exact hsound ts hts _ (List.getElem_mem hlt)
    have hcolumns := hperm.map fun ts => ts[i]?.getD empty
    rw [getElem?_totalEach h hi, getElem?_totalEach h' hi, Option.map_some, Option.map_some,
      (alike_total_of_perm hcolumns hcolumn).result_eq (sound_total hcolumn)
        (sound_total fun t ht => hcolumn t (hcolumns.mem_iff.2 ht))]
  · rw [List.getElem?_eq_none (by rw [length_totalEach h]; omega),
      List.getElem?_eq_none (by rw [length_totalEach h']; omega)]

end

end Tally

/-! ## Ways to divide the work -/

/-- A way to reduce a row of parts: two neighbouring pieces are joined, and there may be
pieces without a part. -/
inductive Reduction where
  | nothing
  | part (tallies : List Tally)
  | join (left right : Reduction)

namespace Reduction

/-- The parts from left to right. -/
def parts : Reduction → List (List Tally)
  | nothing => []
  | part tallies => [tallies]
  | join left right => left.parts ++ right.parts

/-- The tallies for `n` signatures that it comes to. -/
def run (n : Nat) : Reduction → List Tally
  | nothing => Tally.emptyEach n
  | part tallies => tallies
  | join left right => Tally.mergeEach (left.run n) (right.run n)

/-- However the work is divided, it comes to what merging from left to right gives. -/
theorem run_eq {n : Nat} {d : Reduction} (h : ∀ ts ∈ d.parts, ts.length = n) :
    d.run n = Tally.totalEach n d.parts := by
  induction d with
  | nothing => rfl
  | part tallies => exact (Tally.emptyEach_mergeEach (h tallies List.mem_cons_self)).symm
  | join left right ihl ihr =>
    rw [parts, Tally.totalEach_append h, run, ihl fun ts hts => h ts (List.mem_append_left _ hts),
      ihr fun ts hts => h ts (List.mem_append_right _ hts)]

end Reduction

/-! ## The tallies of a pass -/

namespace Pass

/-- The tallies of each region, one for each signature. -/
def tallies (p : Pass) (signatures : List Signature) : List (List Tally) :=
  p.parts.map fun (r, ws) => signatures.map fun s => tallyIn s r ws

variable (p : Pass) (signatures : List Signature)

theorem length_of_mem_tallies {ts : List Tally} (h : ts ∈ p.tallies signatures) :
    ts.length = signatures.length := by
  obtain ⟨part, -, rfl⟩ := List.mem_map.1 h
  exact List.length_map _

theorem exists_built_tallyIn (s : Signature) (r : Region) (ws : List IndexedWindow) :
    ∃ found, Tally.Built found (tallyIn s r ws) := by
  suffices h : ∀ found t, Tally.Built found t →
      ∃ found', Tally.Built found'
        (ws.foldl (fun t w => (IndexedWindow.found s r w).foldl Tally.record t) t) from
    h [] .empty .empty
  induction ws with
  | nil => exact fun found t h => ⟨found, h⟩
  | cons w ws ih => exact fun found t h => ih _ _ (h.foldl_record (IndexedWindow.found s r w))

theorem exists_built_of_mem_tallies {ts : List Tally} (hts : ts ∈ p.tallies signatures)
    {t : Tally} (ht : t ∈ ts) : ∃ found, Tally.Built found t := by
  obtain ⟨⟨r, ws⟩, -, rfl⟩ := List.mem_map.1 hts
  obtain ⟨s, -, rfl⟩ := List.mem_map.1 ht
  exact exists_built_tallyIn s r ws

/-- The tallies that a pass takes its results from are those of its regions, merged. -/
theorem map_tally_eq :
    signatures.map p.tally = Tally.totalEach signatures.length (p.tallies signatures) := by
  have hlength : ∀ ts ∈ p.tallies signatures, ts.length = signatures.length :=
    fun ts hts => p.length_of_mem_tallies signatures hts
  refine List.ext_getElem? fun i => ?_
  by_cases hi : i < signatures.length
  · rw [Tally.getElem?_totalEach hlength hi, List.getElem?_map, List.getElem?_eq_getElem hi,
      Option.map_some, tallies, List.map_map, tally, Tally.total]
    simp [Function.comp_def, hi]
  · rw [List.getElem?_eq_none (by simpa using hi),
      List.getElem?_eq_none (by rw [Tally.length_totalEach hlength]; omega)]

end Pass

section

variable {m : Source} {config : Config} {regions regions' : List Region}
  {signatures : List Signature}

/-- A scan reports the results of the totals over its regions. -/
theorem scan_eq_map_result (m : Source) (config : Config) (regions : List Region)
    (signatures : List Signature) :
    scan m config regions signatures =
      (Tally.totalEach signatures.length
        ((Pass.read m config regions signatures).tallies signatures)).map Tally.result := by
  rw [← Pass.map_tally_eq, List.map_map]
  rfl

/-- Regions in another order have the same tallies in another order. -/
theorem tallies_perm (h : regions.Perm regions') :
    ((Pass.read m config regions signatures).tallies signatures).Perm
      ((Pass.read m config regions' signatures).tallies signatures) :=
  ((h.filter config.admits).map _).map _

end

/-! ## Order does not matter -/

/-- What makes tallies of parts independent of the way in which they are merged. -/
structure OrderFree : Prop where
  assoc : ∀ a b c : Tally, (a.merge b).merge c = a.merge (b.merge c)
  empty_left : ∀ t : Tally, Tally.empty.merge t = t
  empty_right : ∀ t : Tally, t.merge .empty = t
  /-- Every way to divide the work comes to what merging from left to right gives. -/
  reduced : ∀ (n : Nat) (d : Reduction), (∀ ts ∈ d.parts, ts.length = n) →
    d.run n = d.parts.foldl Tally.mergeEach (Tally.emptyEach n)
  /-- Parts in another order, divided in another way, lead to the same results. -/
  permuted : ∀ (n : Nat) (d d' : Reduction), d.parts.Perm d'.parts →
    (∀ ts ∈ d.parts, ts.length = n ∧ ∀ t ∈ ts, ∃ found, Tally.Built found t) →
    (d.run n).map Tally.result = (d'.run n).map Tally.result
  /-- So a scan has the same results whatever the order of the regions, and however their
  tallies are reduced. -/
  scanned : ∀ (m : Source) (config : Config) (regions regions' : List Region)
    (signatures : List Signature) (d : Reduction), regions.Perm regions' →
    d.parts = (Pass.read m config regions' signatures).tallies signatures →
    (d.run signatures.length).map Tally.result = scan m config regions signatures
      ∧ scan m config regions' signatures = scan m config regions signatures
  /-- A tally of some matches always keeps one. -/
  kept : ∀ found t, Tally.Built found t → (t.count = 0 ↔ t.first = none)
  /-- The match that is told is the only one that was recorded. -/
  told : ∀ found t a, Tally.Built found t → (t.result = .unique a ↔ found = [a])

/-- However the regions of a module are ordered and the work is divided between them, merging
their tallies leads to the results of the scan. -/
theorem orderFree : OrderFree where
  assoc := Tally.merge_assoc
  empty_left := Tally.empty_merge
  empty_right := Tally.merge_empty
  reduced _ _ h := Reduction.run_eq h
  permuted n d d' hperm h := by
    have hlength : ∀ ts ∈ d.parts, ts.length = n := fun ts hts => (h ts hts).1
    have hsound : ∀ ts ∈ d.parts, ∀ t ∈ ts, t.Sound := by
      intro ts hts t ht
      obtain ⟨found, hbuilt⟩ := (h ts hts).2 t ht
      exact hbuilt.sound
    rw [Reduction.run_eq hlength, Reduction.run_eq fun ts hts => hlength ts (hperm.mem_iff.2 hts)]
    exact Tally.map_result_totalEach_of_perm hperm hlength hsound
  scanned m config regions regions' signatures d hperm hparts := by
    have hlength : ∀ ts ∈ d.parts, ts.length = signatures.length := by
      rw [hparts]
      exact fun ts hts => Pass.length_of_mem_tallies _ _ hts
    have hsame : scan m config regions' signatures = scan m config regions signatures := by
      rw [scan_eq_map_result, scan_eq_map_result]
      refine Tally.map_result_totalEach_of_perm (tallies_perm hperm.symm)
        (fun ts hts => Pass.length_of_mem_tallies _ _ hts) fun ts hts t ht => ?_
      obtain ⟨found, hbuilt⟩ := Pass.exists_built_of_mem_tallies _ _ hts ht
      exact hbuilt.sound
    refine ⟨?_, hsame⟩
    rw [Reduction.run_eq hlength, hparts, ← scan_eq_map_result, hsame]
  kept _ _ h := h.sound
  told _ _ _ h := h.result_eq_unique_iff

/-- A place in a region of `len` bytes at zero where memory that holds every address as its
byte has `03 ?? 05`. -/
def gapMatch (len : Nat) : Match :=
  ⟨3, ⟨0, len, .code⟩⟩

/-- Two regions share the place of a match, so that their tallies do not commute; yet the scan
tells that there are two matches, whichever of them is merged first. -/
theorem orderFree_overlapping :
    Tally.merge ⟨1, some (gapMatch 8)⟩ ⟨1, some (gapMatch 6)⟩ ≠
        Tally.merge ⟨1, some (gapMatch 6)⟩ ⟨1, some (gapMatch 8)⟩
      ∧ ((Reduction.join (.part [⟨1, some (gapMatch 6)⟩])
            (.join .nothing (.part [⟨1, some (gapMatch 8)⟩]))).run 1).map Tally.result =
          scan (.ofContents UInt64.toUInt8) ⟨2, false⟩ [⟨0, 8, .code⟩, ⟨0, 6, .code⟩]
            [gapSignature] :=
  ⟨by decide, (orderFree.scanned (.ofContents UInt64.toUInt8) ⟨2, false⟩ _ _ [gapSignature] _
    (List.Perm.swap ⟨0, 6, .code⟩ ⟨0, 8, .code⟩ []) (by decide)).1⟩

end SigScan.Scan
