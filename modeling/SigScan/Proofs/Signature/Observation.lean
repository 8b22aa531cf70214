/-
SigScan.Proofs.Signature.Observation — what can be seen of a signature from outside.

A signature shows itself in the windows that it matches, in what a scan finds, and in the
address that a match leads to. Equivalent signatures are the same up to the spelling of
their patterns, so nothing tells them apart (`interchangeable_of_isEquivalent`).

Conversely there is memory that shows a signature. Bytes as long as the pattern hold it in
one place at most, and whether they do shows each literal byte and each wildcard
(`tokens_eq_of_indistinguishable`); a match in an empty region shows the mode and the
offset (`resolution_eq_of_indistinguishable`). What no observation shows is which rule chose
the offset. Equivalence compares that too, so it refuses two signatures that nothing tells
apart exactly if one author names offset 1 for a pattern that opens with a near call or
jump and the other leaves it to be found (`isEquivalent_of_indistinguishable`).
-/
import SigScan.Registry
import SigScan.Proofs.Scan.Group
import SigScan.Proofs.Signature.Representation

namespace SigScan

open Bytes

namespace Signature

/-! ## Equivalent signatures -/

theorem equivalence_isEquivalent : Equivalence fun a b : Signature => a.isEquivalent b = true where
  refl a := isEquivalent_iff.2 ⟨rfl, rfl, rfl, rfl⟩
  symm h := by
    obtain ⟨hw, hr, ho, hi⟩ := isEquivalent_iff.1 h
    exact isEquivalent_iff.2 ⟨hw.symm, hr.symm, ho.symm, hi.symm⟩
  trans h h' := by
    obtain ⟨hw, hr, ho, hi⟩ := isEquivalent_iff.1 h
    obtain ⟨hw', hr', ho', hi'⟩ := isEquivalent_iff.1 h'
    exact isEquivalent_iff.2 ⟨hw.trans hw', hr.trans hr', ho.trans ho', hi.trans hi'⟩

/-- Compiled signatures are equivalent exactly if their tokens, offsets and idioms are the
same. -/
theorem Compiles.isEquivalent_iff {as bs : Pattern} {a b : Signature} (ha : Compiles as a)
    (hb : Compiles bs b) :
    a.isEquivalent b = true ↔ as = bs ∧ a.offset = b.offset ∧ a.idiom = b.idiom := by
  rw [Signature.isEquivalent_iff]
  constructor
  · rintro ⟨hw, hr, ho, hi⟩
    exact ⟨ha.tokens_eq hb hw hr, ho, hi⟩
  · rintro ⟨rfl, ho, hi⟩
    obtain ⟨-, hwa, hra, -⟩ := ha.fields
    obtain ⟨-, hwb, hrb, -⟩ := hb.fields
    exact ⟨hwa.trans hwb.symm, hra.trans hrb.symm, ho, hi⟩

/-- Neither a scan nor a resolution tells the signatures apart. -/
structure Indistinguishable (a b : Signature) : Prop where
  scanOne_eq : ∀ m config regions,
    Scan.scanOne m config regions a = Scan.scanOne m config regions b
  resolve_eq : ∀ m found, resolve m found a = resolve m found b

/-- Moreover they are searched for by the same byte and match the same windows. -/
structure Interchangeable (a b : Signature) : Prop extends Indistinguishable a b where
  anchorIndex_eq : a.anchorIndex = b.anchorIndex
  anchorByte_eq : a.anchorByte = b.anchorByte
  matchesWindow_eq : ∀ window, a.matchesWindow window = b.matchesWindow window

/-- No search and no resolution looks at the spelling of a pattern. -/
theorem interchangeable_pattern (s : Signature) (text : String) :
    Interchangeable s { s with pattern := text } where
  scanOne_eq _ _ _ := rfl
  resolve_eq _ _ := rfl
  anchorIndex_eq := rfl
  anchorByte_eq := rfl
  matchesWindow_eq _ := rfl

/-- Equivalence is an equivalence relation, it relates the compiled signatures with the same
tokens, offsets and idioms, and what it relates can be put in each other's place. -/
theorem interchangeable_of_isEquivalent {as bs : Pattern} {a b : Signature} (ha : Compiles as a)
    (hb : Compiles bs b) :
    Equivalence (fun s t : Signature => s.isEquivalent t = true)
    ∧ (a.isEquivalent b = true ↔ as = bs ∧ a.offset = b.offset ∧ a.idiom = b.idiom)
    ∧ (a.isEquivalent b = true → Interchangeable a b) := by
  refine ⟨equivalence_isEquivalent, ha.isEquivalent_iff hb, ?_⟩
  intro h
  rw [eq_of_isEquivalent ha.isCompiled hb.isCompiled h]
  exact interchangeable_pattern a b.pattern

/-- The signature of a near call, its text spelled in some way. -/
def nearCall (text : String) (idiom : Idiom) : Signature :=
  ⟨text, [⟨0xE8, 0xFF⟩], 5, 1, idiom, 0, 0xE8⟩

theorem compiles_nearCall :
    Compiles [.byte 0xE8, .any, .any, .any, .any] (nearCall "E8 ?? ?? ?? ??" .nearCallOrJump) :=
  ⟨"E8 ?? ?? ?? ??", none, rfl, rfl⟩

theorem compiles_nearCall_spelled :
    Compiles [.byte 0xE8, .any, .any, .any, .any] (nearCall "e8 ? ? ? ?" .nearCallOrJump) :=
  ⟨" e8 ? ? ? ? ", none, rfl, rfl⟩

theorem compiles_nearCall_named :
    Compiles [.byte 0xE8, .any, .any, .any, .any] (nearCall "E8 ?? ?? ?? ??" .explicitRelative) :=
  ⟨"E8 ?? ?? ?? ??", some 1, rfl, rfl⟩

/-- A near call in two spellings. -/
theorem interchangeable_nearCall :
    Interchangeable (nearCall "E8 ?? ?? ?? ??" .nearCallOrJump)
      (nearCall "e8 ? ? ? ?" .nearCallOrJump) := by
  obtain ⟨-, hiff, hsame⟩ := interchangeable_of_isEquivalent compiles_nearCall
    compiles_nearCall_spelled
  exact hsame (hiff.2 ⟨rfl, rfl, rfl⟩)

end Signature

/-! ## Bytes that show a pattern -/

/-- The bytes from address zero on, and nothing behind them. -/
def Source.ofBytes (bytes : ByteArray) : Source where
  read address size :=
    if address.toNat + size ≤ bytes.size then .ok (slice bytes address.toNat size)
    else .error ⟨address, .notMapped size⟩

namespace Pattern

/-- The bytes of a pattern, with `fill` in place of each wildcard. -/
def filled (tokens : Pattern) (fill : UInt8) : ByteArray :=
  ⟨(tokens.map fun t => t.byte?.getD fill).toArray⟩

theorem size_filled (tokens : Pattern) (fill : UInt8) :
    (tokens.filled fill).size = tokens.length := by
  simp [filled, ByteArray.size]

theorem at?_filled (tokens : Pattern) (fill : UInt8) (i : Nat) :
    at? (tokens.filled fill) i = tokens[i]?.map fun t => t.byte?.getD fill := by
  simp [at?_eq_getElem?, toList, filled]

/-- A pattern is determined by its length and its literal bytes. -/
theorem ext_literals {as bs : Pattern} (hlen : as.length = bs.length)
    (h : ∀ (i : Nat) (x : UInt8), as[i]? = some (.byte x) ↔ bs[i]? = some (.byte x)) :
    as = bs := by
  refine List.ext_getElem hlen ?_
  intro i hi hi'
  have hbyte := h i
  rw [List.getElem?_eq_getElem hi, List.getElem?_eq_getElem hi'] at hbyte
  simp only [Option.some.injEq] at hbyte
  cases hta : as[i] with
  | byte x => exact ((hbyte x).1 hta).symm
  | any =>
    cases htb : bs[i] with
    | byte x => exact absurd ((hbyte x).2 htb) (by simp [hta])
    | any => rfl

end Pattern

namespace Scan

/-- What a scan says of bytes that lie from address zero on and are read in one piece. -/
def scanWhole (bytes : ByteArray) (s : Signature) : Result :=
  scanOne (.ofBytes bytes) ⟨bytes.size, false⟩ [⟨0, bytes.size, .code⟩] s

theorem passMatches_ofBytes {bytes : ByteArray} (h : 0 < bytes.size) (s : Signature) :
    passMatches (.ofBytes bytes) ⟨bytes.size, false⟩ [⟨0, bytes.size, .code⟩] s =
      found s ⟨0, bytes.size, .code⟩ ⟨0, 0, bytes⟩ := by
  have hstep : Config.step ⟨bytes.size, false⟩ = bytes.size := Nat.max_eq_right h
  have hadmits : Config.admits ⟨bytes.size, false⟩ ⟨0, bytes.size, .code⟩ = true := by
    simp [Config.admits, Access.code, h]
  have hcount : chunkCount ⟨bytes.size, false⟩ ⟨0, bytes.size, .code⟩ = 1 := by
    rw [chunkCount, hstep, Nat.add_div_left _ h, Nat.div_eq_of_lt (Nat.sub_one_lt_of_lt h)]
  have haddress : chunkAddress ⟨bytes.size, false⟩ ⟨0, bytes.size, .code⟩ 0 = 0 := by
    simp [chunkAddress]
  have hread : chunkRead (.ofBytes bytes) ⟨bytes.size, false⟩ ⟨0, bytes.size, .code⟩ 0 =
      .ok bytes := by
    simp [chunkRead, haddress, chunkLen, hstep, Source.ofBytes, slice]
  have hbehind : Window.behind .empty 0 bytes = ⟨0, 0, bytes⟩ := by
    simp [Window.behind]
  simp only [passMatches, List.filter_cons, hadmits, if_true, List.filter_nil,
    List.flatMap_singleton, hcount, List.range_one, chunkMatches, hread, received, haddress,
    hbehind]

/-- Bytes that are not longer than the pattern leave one place to look at, or none. -/
theorem starts_whole {s : Signature} {bytes : ByteArray} (hpos : 0 < s.rawLen)
    (hle : bytes.size ≤ s.rawLen) :
    starts s ⟨0, 0, bytes⟩ =
      if bytes.size = s.rawLen ∧ s.matchesAt bytes 0 = true then [0] else [] := by
  simp only [starts, placesFrom_eq_filter]
  by_cases hsize : bytes.size = s.rawLen
  · have hlow : 0 + 1 - s.rawLen = 0 := by omega
    have hcount : bytes.size + 1 - s.rawLen - 0 = 1 := by omega
    rw [hlow, hcount, List.range'_one]
    simp [List.filter_cons, hsize]
  · have hcount : bytes.size + 1 - s.rawLen - (0 + 1 - s.rawLen) = 0 := by omega
    rw [hcount]
    simp [hsize]

/-- In bytes that are not longer than its pattern a signature is found exactly if they are as
long and hold every literal byte. -/
theorem scanWhole_ne_noMatch_iff {tokens : Pattern} {s : Signature}
    (hs : Signature.Compiles tokens s) {bytes : ByteArray} (hpos : 0 < bytes.size)
    (hle : bytes.size ≤ tokens.length) :
    scanWhole bytes s ≠ .noMatch ↔
      bytes.size = tokens.length ∧ ∀ i x, tokens[i]? = some (.byte x) → at? bytes i = some x := by
  have hlen := hs.rawLen_eq
  have hmatches : bytes.size = tokens.length → (s.matchesAt bytes 0 = true ↔
      ∀ i x, tokens[i]? = some (.byte x) → at? bytes i = some x) := by
    intro hsize
    have hfit : 0 + s.rawLen ≤ bytes.size := by omega
    simpa using hs.matchesAt_iff hfit
  rw [scanWhole, scanOne, result_read_eq _ _ _ (List.mem_singleton_self s),
    passMatches_ofBytes hpos, Tally.result_ofMatches, found,
    starts_whole hs.rawLen_pos (by omega), hlen]
  by_cases hfound : bytes.size = tokens.length ∧ s.matchesAt bytes 0 = true
  · obtain ⟨hsize, hmatch⟩ := hfound
    simpa [hsize, hmatch] using (hmatches hsize).1 hmatch
  · rw [if_neg hfound]
    simp only [List.map_nil, ne_eq, not_true_eq_false, false_iff]
    rintro ⟨hsize, hall⟩
    exact hfound ⟨hsize, (hmatches hsize).2 hall⟩

end Scan

namespace Signature

section

variable {as bs : Pattern} {a b : Signature}

theorem Indistinguishable.symm (h : Indistinguishable a b) : Indistinguishable b a where
  scanOne_eq m config regions := (h.scanOne_eq m config regions).symm
  resolve_eq m found := (h.resolve_eq m found).symm

/-- The bytes of the shorter pattern, filled in any way, are found by both; so the other
pattern is as long, and its literal bytes are not among those that were filled in. -/
theorem literal_of_indistinguishable (h : Indistinguishable a b) (ha : Compiles as a)
    (hb : Compiles bs b) (hle : as.length ≤ bs.length) :
    as.length = bs.length ∧
      ∀ (i : Nat) (x : UInt8), bs[i]? = some (.byte x) → as[i]? = some (.byte x) := by
  have hpos : 0 < as.length := List.length_pos_iff.2 ha.fields.1
  have hshown : ∀ fill, as.length = bs.length ∧
      ∀ (i : Nat) (x : UInt8), bs[i]? = some (.byte x) → at? (as.filled fill) i = some x := by
    intro fill
    have hsize := as.size_filled fill
    have hfound : Scan.scanWhole (as.filled fill) a ≠ .noMatch := by
      refine (Scan.scanWhole_ne_noMatch_iff ha (by omega) (by omega)).2 ⟨hsize, ?_⟩
      intro i x hx
      simp [Pattern.at?_filled, hx, Token.byte?]
    rw [Scan.scanWhole, h.scanOne_eq] at hfound
    obtain ⟨hlen, hall⟩ := (Scan.scanWhole_ne_noMatch_iff hb (by omega) (by omega)).1 hfound
    exact ⟨hsize.symm.trans hlen, hall⟩
  refine ⟨(hshown 0).1, ?_⟩
  intro i x hx
  -- Filled with another byte, a wildcard would not hold the literal byte.
  have hother := (hshown (x + 1)).2 i x hx
  rw [Pattern.at?_filled] at hother
  obtain ⟨t, ht, hbyte⟩ := Option.map_eq_some_iff.1 hother
  cases t with
  | byte y =>
    obtain rfl : y = x := hbyte
    exact ht
  | any =>
    have hne : x + 1 ≠ x := by simp
    exact absurd hbyte hne

/-- Scans show every token. -/
theorem tokens_eq_of_indistinguishable (h : Indistinguishable a b) (ha : Compiles as a)
    (hb : Compiles bs b) : as = bs := by
  have hlen : as.length = bs.length := by
    rcases Nat.le_total as.length bs.length with hle | hle
    · exact (literal_of_indistinguishable h ha hb hle).1
    · exact (literal_of_indistinguishable h.symm hb ha hle).1.symm
  refine Pattern.ext_literals hlen fun i x => ⟨?_, ?_⟩
  · exact (literal_of_indistinguishable h.symm hb ha (Nat.le_of_eq hlen.symm)).2 i x
  · exact (literal_of_indistinguishable h ha hb (Nat.le_of_eq hlen)).2 i x

/-! ## A match that shows mode and offset -/

/-- No displacement has room in a region without bytes. -/
theorem resolve_nowhere (m : Source) {s : Signature} (hm : s.mode = .relativeDisplacement) :
    resolve m ⟨0, ⟨0, 0, .code⟩⟩ s = .error (.outOfBounds s.offset.toUInt64) := by
  have hr :
      Region.containsRange ⟨0, 0, .code⟩ (0 + s.offset.toUInt64) displacementSize = false := by
    rw [Bool.eq_false_iff, ne_eq, Region.containsRange_iff]
    simp [displacementSize]
  rw [resolve, follow_outside hm hr, UInt64.zero_add]

theorem resolution_eq_of_indistinguishable (h : Indistinguishable a b) :
    a.mode = b.mode ∧ a.offset = b.offset := by
  have hnowhere := h.resolve_eq (.ofBytes .empty) ⟨0, ⟨0, 0, .code⟩⟩
  cases hma : a.mode with
  | direct =>
    rw [resolve, follow_direct hma] at hnowhere
    cases hmb : b.mode with
    | direct =>
      rw [resolve, follow_direct hmb] at hnowhere
      simpa [UInt32.toUInt64_inj] using hnowhere
    | relativeDisplacement =>
      rw [resolve_nowhere _ hmb] at hnowhere
      contradiction
  | relativeDisplacement =>
    rw [resolve_nowhere _ hma] at hnowhere
    cases hmb : b.mode with
    | direct =>
      rw [resolve, follow_direct hmb] at hnowhere
      contradiction
    | relativeDisplacement =>
      rw [resolve_nowhere _ hmb] at hnowhere
      simpa [UInt32.toUInt64_inj] using hnowhere

/-- Compiled signatures cannot be told apart exactly if their tokens and their offsets are the
same; of the idiom only the mode can be seen, and the offset settles it. -/
theorem indistinguishable_iff (ha : Compiles as a) (hb : Compiles bs b) :
    Indistinguishable a b ↔ as = bs ∧ a.offset = b.offset := by
  constructor
  · intro h
    exact ⟨tokens_eq_of_indistinguishable h ha hb, (resolution_eq_of_indistinguishable h).2⟩
  · rintro ⟨rfl, ho⟩
    have hm : a.mode = b.mode := by
      have hdirect : a.mode = .direct ↔ b.mode = .direct := by
        rw [ha.isCompiled.mode_eq_direct_iff, hb.isCompiled.mode_eq_direct_iff, ho]
      cases hma : a.mode with
      | direct => exact (hdirect.1 hma).symm
      | relativeDisplacement =>
        cases hmb : b.mode with
        | direct => exact absurd (hdirect.2 hmb) (by simp [hma])
        | relativeDisplacement => rfl
    constructor
    · intro m config regions
      rw [ha.eq_of_tokens hb]
      rfl
    · intro m found
      simp only [resolve, follow, hm, ho]

end

end Signature

/-! ## Which rule chose the offset -/

namespace Idiom

/-- What is found behind an opening near call or jump is what an author names with 1. -/
theorem classify_none_eq_iff {first : Token} {n : UInt32}
    (h : (classify first none).2 = (classify first (some n)).2) :
    (classify first none).1 = (classify first (some n)).1 ↔
      ¬ (opensNear first = true ∧ n = 1) := by
  rw [snd_classify_some] at h
  cases hfirst : opensNear first with
  | true =>
    obtain rfl : n = 1 := by simpa [classify, hfirst] using h.symm
    simp [classify, hfirst]
  | false =>
    obtain rfl : n = 0 := by simpa [classify, hfirst] using h.symm
    simp [classify, hfirst]

/-- Two rules choose the same offset only where a near call or jump is both found and named. -/
theorem fst_classify_eq_iff {first : Token} {x y : Option UInt32}
    (h : (classify first x).2 = (classify first y).2) :
    (classify first x).1 = (classify first y).1 ↔
      ¬ (opensNear first = true ∧ (x = none ∧ y = some 1 ∨ x = some 1 ∧ y = none)) := by
  cases x with
  | none =>
    cases y with
    | none => simp
    | some n => simpa using classify_none_eq_iff h
  | some n =>
    cases y with
    | none =>
      rw [eq_comm, classify_none_eq_iff h.symm]
      simp
    | some k =>
      rw [snd_classify_some, snd_classify_some] at h
      simp [h]

end Idiom

namespace Signature

/-- Of two authors of a pattern that opens with a near call or jump one names the place of the
displacement, and the other leaves it to be found. -/
def NamesWhatIsFound (tokens : Pattern) (x y : Option UInt32) : Prop :=
  (tokens[0]? = some (.byte 0xE8) ∨ tokens[0]? = some (.byte 0xE9)) ∧
    (x = none ∧ y = some 1 ∨ x = some 1 ∧ y = none)

/-- Signatures of the same tokens and offsets have the same idiom unless one author names what
the other leaves to be found. -/
theorem idiom_eq_iff {tokens : Pattern} {textA textB : String} {x y : Option UInt32}
    {a b : Signature} (hpa : Pattern.parse textA = .ok tokens)
    (hpb : Pattern.parse textB = .ok tokens) (ha : compile textA x = .ok a)
    (hb : compile textB y = .ok b) (ho : a.offset = b.offset) :
    a.idiom = b.idiom ↔ ¬ NamesWhatIsFound tokens x y := by
  obtain ⟨first, rest, hpa', -, -, -, -, hca⟩ := compile_eq_ok_iff.1 ha
  obtain ⟨first', rest', hpb', -, -, -, -, hcb⟩ := compile_eq_ok_iff.1 hb
  obtain rfl := Except.ok.inj (hpa.symm.trans hpa')
  obtain ⟨rfl, rfl⟩ := List.cons.inj (Except.ok.inj (hpb.symm.trans hpb'))
  have hrules : (Idiom.classify first x).2 = (Idiom.classify first y).2 := by
    rw [hca, hcb, ho]
  have hiff := Idiom.fst_classify_eq_iff hrules
  rw [hca, hcb, Idiom.opensNear_iff] at hiff
  simpa [NamesWhatIsFound] using hiff

/-- Signatures that nothing tells apart are equivalent, and registering one under the name of
the other gives the entry that is there, unless one author names what the other leaves to be
found: then they are not equivalent, and the registration is refused. -/
theorem isEquivalent_of_indistinguishable {tokens : Pattern} {textA textB : String}
    {x y : Option UInt32} {a b : Signature} (hp : Pattern.parse textA = .ok tokens)
    (ha : compile textA x = .ok a) (hb : compile textB y = .ok b) (h : Indistinguishable a b) :
    (a.isEquivalent b = true ↔ ¬ NamesWhatIsFound tokens x y)
    ∧ ∀ (r : Registry) (name : String) (e : Entry), r.find? name = some e → e.signature = a →
      (¬ NamesWhatIsFound tokens x y → r.register name b e.deref = .ok (e, r))
      ∧ (NamesWhatIsFound tokens x y → r.register name b e.deref = .error (.duplicate name)) := by
  have hca : Compiles tokens a := ⟨textA, x, hp, ha⟩
  obtain ⟨first, rest, hpb, -⟩ := compile_eq_ok_iff.1 hb
  have hcb : Compiles (first :: rest) b := ⟨textB, y, hpb, hb⟩
  obtain ⟨rfl, ho⟩ := (indistinguishable_iff hca hcb).1 h
  have hiff : a.isEquivalent b = true ↔ ¬ NamesWhatIsFound (first :: rest) x y := by
    rw [hca.isEquivalent_iff hcb, ← idiom_eq_iff hp hpb ha hb ho]
    simp [ho]
  refine ⟨hiff, ?_⟩
  rintro r name e hfind rfl
  rw [Registry.register_existing hfind, Registry.agrees, beq_self_eq_true, Bool.true_and]
  constructor
  · intro hnot
    rw [if_pos (hiff.2 hnot)]
  · intro hnames
    rw [if_neg fun heq => hiff.1 heq hnames]

/-- Registered in one spelling, a near call is there in the other. -/
theorem isEquivalent_of_indistinguishable_nearCall :
    (nearCall "E8 ?? ?? ?? ??" .nearCallOrJump).isEquivalent
        (nearCall "e8 ? ? ? ?" .nearCallOrJump) = true
    ∧ ∃ e r, Registry.empty.registerPattern "A" "E8 ?? ?? ?? ??" none = .ok (e, r)
      ∧ r.register "A" (nearCall "e8 ? ? ? ?" .nearCallOrJump) false = .ok (e, r) := by
  have hparse : Pattern.parse "E8 ?? ?? ?? ??" = .ok [.byte 0xE8, .any, .any, .any, .any] := rfl
  have hfound : compile "E8 ?? ?? ?? ??" none =
      .ok (nearCall "E8 ?? ?? ?? ??" .nearCallOrJump) := rfl
  have hspelled : compile " e8 ? ? ? ? " none = .ok (nearCall "e8 ? ? ? ?" .nearCallOrJump) := rfl
  have hnot : ¬ NamesWhatIsFound [.byte 0xE8, .any, .any, .any, .any] none none := by
    simp [NamesWhatIsFound]
  have hsame := (indistinguishable_iff compiles_nearCall compiles_nearCall_spelled).2 ⟨rfl, rfl⟩
  obtain ⟨hiff, hregister⟩ := isEquivalent_of_indistinguishable hparse hfound hspelled hsame
  obtain ⟨e, he⟩ : ∃ e : Entry, e =
      ⟨"A", nearCall "E8 ?? ?? ?? ??" .nearCallOrJump, false, .unresolved⟩ := ⟨_, rfl⟩
  obtain ⟨r, hr⟩ : ∃ r : Registry, r = ⟨Registry.empty.entries.insert "A" e⟩ := ⟨_, rfl⟩
  have hfirst : Registry.empty.registerPattern "A" "E8 ?? ?? ?? ??" none = .ok (e, r) := by
    subst hr he
    rfl
  have hfind : r.find? "A" = some e := by
    subst hr he
    rfl
  have hagain := (hregister r "A" e hfind (by rw [he])).1 hnot
  exact ⟨hiff.2 hnot, e, r, hfirst, by simpa [he] using hagain⟩

/-- Nothing tells a near call that is found from one that is named, and yet they are not
equivalent: one registered under the name of the other is refused. -/
theorem not_isEquivalent_named :
    Indistinguishable (nearCall "E8 ?? ?? ?? ??" .nearCallOrJump)
      (nearCall "E8 ?? ?? ?? ??" .explicitRelative)
    ∧ (nearCall "E8 ?? ?? ?? ??" .nearCallOrJump).isEquivalent
        (nearCall "E8 ?? ?? ?? ??" .explicitRelative) = false
    ∧ ∃ e r, Registry.empty.registerPattern "A" "E8 ?? ?? ?? ??" none = .ok (e, r)
      ∧ r.registerPattern "A" "E8 ?? ?? ?? ??" (some 1) = .error (.duplicate "A") := by
  refine ⟨?_, rfl, _, _, rfl, rfl⟩
  exact (indistinguishable_iff compiles_nearCall compiles_nearCall_named).2 ⟨rfl, rfl⟩

end Signature

end SigScan
