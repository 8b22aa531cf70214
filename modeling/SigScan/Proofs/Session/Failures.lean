/-
SigScan.Proofs.Session.Failures — how entries over a snapshot can fail.

A unique match in a region of a snapshot lies inside the region with all bytes of its pattern.
A displacement that is part of the pattern is therefore inside the region as well
(`containsRange_field`), and for every displacement inside a region its segment has the bytes
(`exists_readInt32`). So no signature comes to a displacement that cannot be read, and one
that contains its displacement does not come to one outside the region
(`mayFail_of_ownOutcome`).

Entries are settled by what their signatures come to or by priming, so every move keeps this
(`overSnapshot_apply`), and it holds of all sessions (`failures_run`).
-/
import SigScan.Proofs.Resolve.Displacement
import SigScan.Proofs.Scan.Within
import SigScan.Proofs.Session.WellFormed

namespace SigScan

/-! ## Failures of a signature -/

namespace Signature

/-- Nothing but the bytes of a match is needed to resolve it: it is the place that is looked for,
or its displacement is part of the pattern. -/
def SelfContained (s : Signature) : Prop :=
  s.mode = .direct ∨ s.offset.toNat + displacementSize ≤ s.rawLen

instance (s : Signature) : Decidable s.SelfContained :=
  inferInstanceAs (Decidable (_ ∨ _))

/-- The ways in which a signature can fail over a snapshot. -/
def MayFail (s : Signature) : FailureKind → Prop
  | .noMatch => True
  | .ambiguous _ => True
  | .outOfBounds _ => ¬ s.SelfContained
  | .unreadable _ => False

end Signature

/-- A displacement within a range of a region is within the region. -/
theorem Region.containsRange_field {r : Region} {address : UInt64} {size : Nat}
    (h : r.containsRange address size = true) {offset : UInt32}
    (hin : offset.toNat + displacementSize ≤ size) :
    r.containsRange (address + offset.toUInt64) displacementSize = true := by
  obtain ⟨hlow, hhigh, htop⟩ := containsRange_iff.1 h
  have hfield : (address + offset.toUInt64).toNat = address.toNat + offset.toNat := by
    rw [toNat_field, Nat.mod_eq_of_lt (by omega)]
  rw [containsRange_iff, hfield]
  omega

namespace Snapshot

variable {m : Snapshot}

/-- Within its region a segment has all bytes of a displacement. -/
theorem exists_readInt32 {r : Region} (hr : r ∈ m.regions) {field : UInt64}
    (h : r.containsRange field displacementSize = true) :
    ∃ displacement, m.source.readInt32 field = .ok displacement := by
  obtain ⟨s, hs, rfl⟩ := List.mem_map.1 hr
  obtain ⟨bytes, hread⟩ := read_isOk_iff.2 ⟨s, hs, h⟩
  have hsize : bytes.size = 4 := size_of_read_eq_ok hread
  have hword : m.source.readWord field 4 = .ok (Bytes.word (Bytes.toList bytes)) := by
    rw [Source.readWord, show m.source.read field 4 = .ok bytes from hread]
    exact if_pos hsize
  exact ⟨_, by rw [Source.readInt32, hword]; rfl⟩

/-- A match with all bytes of its pattern in a region of the snapshot fails only as its
signature may. -/
theorem mayFail_of_resolve {s : Signature} {hit : Scan.Match} (hr : hit.region ∈ m.regions)
    (hin : hit.region.containsRange hit.address s.rawLen = true) {kind : FailureKind}
    (h : resolve m.source hit s = .error kind) : s.MayFail kind := by
  cases hm : s.mode with
  | direct =>
    rw [resolve, follow_direct hm] at h
    contradiction
  | relativeDisplacement =>
    cases hfield : hit.region.containsRange (hit.address + s.offset.toUInt64) displacementSize with
    | false =>
      rw [resolve, follow_outside hm hfield] at h
      obtain rfl := Except.error.inj h
      rintro (hdirect | hwithin)
      · rw [hm] at hdirect
        contradiction
      · rw [Region.containsRange_field hin hwithin] at hfield
        contradiction
    | true =>
      obtain ⟨displacement, hread⟩ := exists_readInt32 hr hfield
      rw [resolve, follow_inside hm hfield, hread] at h
      contradiction

/-- What a signature comes to over a snapshot is an address or a failure that it may have. -/
theorem mayFail_of_ownOutcome
    (hends : ∀ s ∈ m.segments, s.base.toNat + s.bytes.size ≤ UInt64.size) {s : Signature}
    (hs : s.IsCompiled) {config : Scan.Config} {kind : FailureKind}
    (h : s.ownOutcome m.source config m.regions = .error kind) : s.MayFail kind := by
  cases hscan : Scan.scanOne m.source config m.regions s with
  | noMatch =>
    rw [Signature.ownOutcome, hscan] at h
    obtain rfl := Except.error.inj h
    trivial
  | ambiguous count =>
    rw [Signature.ownOutcome, hscan] at h
    obtain rfl := Except.error.inj h
    trivial
  | unique hit =>
    rw [Signature.ownOutcome, hscan] at h
    have hregions : ∀ r ∈ m.regions, r.base.toNat + r.len ≤ UInt64.size := by
      intro r hr
      obtain ⟨t, ht, rfl⟩ := List.mem_map.1 hr
      exact hends t ht
    have hlen : ∀ r ∈ m.regions.filter config.admits, r.len ≤ UInt64.size := by
      intro r hr
      have hend := hregions r (List.mem_filter.1 hr).1
      omega
    obtain ⟨tokens, htokens⟩ := hs.exists_tokens
    have hfirst : (Scan.scan m.source config m.regions [s])[0]? = some (.unique hit) := by
      rw [Scan.scanOne_eq, hscan]
      rfl
    have hr := (Scan.start_of_unique m.exact hlen rfl htokens hfirst).1
    have hin := Scan.containsRange_of_unique m.exact hlen rfl htokens hfirst
      (fun k hk => Scan.start_lt_of_le_size (hregions _ hr) hk)
    exact mayFail_of_resolve hr hin h

end Snapshot

/-! ## Failures of entries -/

/-- If the entry has failed, its signature may fail so. -/
def Entry.FailsAsItMay (e : Entry) : Prop :=
  ∀ f, e.state = .failed f → e.signature.MayFail f.kind

theorem Entry.FailsAsItMay.settle {e : Entry} (h : e.FailsAsItMay) {state : EntryState}
    (hs : ∀ f, state = .failed f → e.signature.MayFail f.kind) :
    (e.settle state).FailsAsItMay := by
  cases he : e.isSettled with
  | true => rwa [Entry.settle_of_isSettled he]
  | false =>
    rw [Entry.settle_of_not_isSettled he]
    exact hs

namespace Session

/-- A session over the regions of a snapshot whose entries have failed as they may. -/
structure OverSnapshot (m : Snapshot) (t : AddressTable) : Prop where
  memory_eq : t.memory = m.source
  regions_eq : t.regions = m.regions
  belongs : ∀ name e, t.registry.find? name = some e → e.BelongsTo name
  failures : ∀ name e, t.registry.find? name = some e → e.FailsAsItMay

section

variable {m : Snapshot} {t : AddressTable} {move : Move}

theorem failsAsItMay_apply
    (hends : ∀ s ∈ m.segments, s.base.toNat + s.bytes.size ≤ UInt64.size) (h : OverSnapshot m t)
    {name : String} {e : Entry} (hf : (move.apply t).registry.find? name = some e) :
    e.FailsAsItMay := by
  rw [Move.find?_apply] at hf
  cases move with
  | insert n s deref =>
    dsimp only at hf
    split at hf
    · obtain rfl := Option.some.inj hf
      intro f hfailed
      contradiction
    · exact h.failures name e hf
  | pass =>
    obtain ⟨e₀, hf₀, rfl⟩ := Option.map_eq_some_iff.1 hf
    refine (h.failures name e₀ hf₀).settle ?_
    intro f hfailed
    obtain ⟨kind, houtcome, rfl⟩ := Entry.failure_of_stateOf hfailed
    rw [h.memory_eq, h.regions_eq] at houtcome
    exact Snapshot.mayFail_of_ownOutcome hends (h.belongs name e₀ hf₀).isCompiled houtcome
  | prime n address =>
    obtain ⟨e₀, hf₀, he⟩ := Option.map_eq_some_iff.1 hf
    have hold := h.failures name e₀ hf₀
    split at he
    · rw [← he]
      refine hold.settle ?_
      intro f hfailed
      contradiction
    · rwa [← he]

/-- Whatever happens to a session over a snapshot, its entries fail as they may. -/
theorem overSnapshot_apply
    (hends : ∀ s ∈ m.segments, s.base.toNat + s.bytes.size ≤ UInt64.size)
    (hen : move.Enabled t) (h : OverSnapshot m t) : OverSnapshot m (move.apply t) where
  memory_eq := (Move.frame_apply t move).1.trans h.memory_eq
  regions_eq := (Move.frame_apply t move).2.2.trans h.regions_eq
  belongs := belongs_apply hen h.belongs
  failures _ _ hf := failsAsItMay_apply hends h hf

theorem overSnapshot_run
    (hends : ∀ s ∈ m.segments, s.base.toNat + s.bytes.size ≤ UInt64.size) (config : Scan.Config)
    (calls : List Call) : OverSnapshot m (run (.new m.source m.regions config) calls) := by
  refine run_preserves (fun _ _ => overSnapshot_apply hends) calls ⟨rfl, rfl, ?_, ?_⟩
  · exact (wellFormed_new m.source m.regions config).belongs
  · intro name e hf
    contradiction

end

/-- Over a snapshot no entry fails because its displacement cannot be read, and an entry whose
signature is self-contained does not fail because its displacement reaches past the region
either: once it is settled it has an address, or its pattern was not found or found more than
once. -/
theorem failures_run (m : Snapshot)
    (hends : ∀ s ∈ m.segments, s.base.toNat + s.bytes.size ≤ UInt64.size) (config : Scan.Config)
    (calls : List Call) (name : String) (e : Entry)
    (h : (run (.new m.source m.regions config) calls).registry.find? name = some e) :
    (∀ f address, e.state = .failed f → f.kind ≠ .unreadable address)
    ∧ (e.signature.SelfContained →
        (∀ f address, e.state = .failed f → f.kind ≠ .outOfBounds address)
        ∧ (e.isSettled = true → (∃ address, e.state = .resolved address)
          ∨ e.state = .failed (e.failure .noMatch)
          ∨ ∃ count, e.state = .failed (e.failure (.ambiguous count)))) := by
  have hover := overSnapshot_run hends config calls
  have hmay := hover.failures name e h
  have hreadable : ∀ f address, e.state = .failed f → f.kind ≠ .unreadable address := by
    intro f address hfailed hkind
    have hfalse := hmay f hfailed
    rwa [hkind] at hfalse
  refine ⟨hreadable, fun hself => ?_⟩
  have hinside : ∀ f address, e.state = .failed f → f.kind ≠ .outOfBounds address := by
    intro f address hfailed hkind
    have hnot := hmay f hfailed
    rw [hkind] at hnot
    exact hnot hself
  refine ⟨hinside, fun hsettled => ?_⟩
  cases hstate : e.state with
  | unresolved => simp [Entry.isSettled, hstate] at hsettled
  | resolved address => exact .inl ⟨address, rfl⟩
  | failed f =>
    obtain ⟨kind, rfl⟩ := (hover.belongs name e h).failure_eq f hstate
    cases kind with
    | noMatch => exact .inr (.inl rfl)
    | ambiguous count => exact .inr (.inr ⟨count, rfl⟩)
    | outOfBounds address => exact absurd rfl (hinside _ address hstate)
    | unreadable address => exact absurd rfl (hreadable _ address hstate)

/-- A call with two bytes behind it, and a segment in front that hides a byte of it. -/
def shadowed : Snapshot :=
  .build [.segment 0x1001 ⟨#[0x90]⟩ .data,
    .segment 0x1000 ⟨#[0xE8, 1, 0, 0, 0, 0xAA, 0xBB]⟩ .code]

/-- The displacement of the call is part of its pattern, that of the tail is looked for behind. -/
def shadowedCalls : List Call :=
  [.register "call" "E8 ?? ?? ?? ??" none, .register "tail" "AA BB" (some 2), .resolveAll]

def shadowedCall : Entry :=
  ⟨"call", ⟨"E8 ?? ?? ?? ??", [⟨0xE8, 0xFF⟩], 5, 1, .nearCallOrJump, 0, 0xE8⟩, false,
    .resolved 0x1006⟩

/-- The call is resolved; the tail, which is not self-contained, fails for its displacement. -/
theorem failures_run_shadowed :
    (shadowedCall.signature.SelfContained
      ∧ ∀ f address, shadowedCall.state = .failed f → f.kind ≠ .outOfBounds address)
    ∧ ∃ tail : Entry,
      (run (.new shadowed.source shadowed.regions {}) shadowedCalls).registry.find? "tail" =
          some tail
        ∧ ¬ tail.signature.SelfContained
        ∧ tail.state = .failed (tail.failure (.outOfBounds 0x1007))
        ∧ ∀ f address, tail.state = .failed f → f.kind ≠ .unreadable address := by
  have hends : ∀ s ∈ shadowed.segments, s.base.toNat + s.bytes.size ≤ UInt64.size := by decide
  have hcall : (run (.new shadowed.source shadowed.regions {}) shadowedCalls).registry.find?
      "call" = some shadowedCall := by
    decide +kernel
  have hself : shadowedCall.signature.SelfContained := by decide
  refine ⟨⟨hself, ((failures_run shadowed hends {} shadowedCalls _ _ hcall).2 hself).1⟩,
    ⟨"tail", ⟨"AA BB", [⟨0xBBAA, 0xFFFF⟩], 2, 2, .explicitRelative, 0, 0xAA⟩, false,
      .failed ⟨"tail", "AA BB", .outOfBounds 0x1007⟩⟩, by decide +kernel, by decide, rfl, ?_⟩
  exact (failures_run shadowed hends {} shadowedCalls "tail" _ (by decide +kernel)).1

end Session

end SigScan
