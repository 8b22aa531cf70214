/-
SigScan.Proofs.Command.Description — descriptions that are read back.

The lines that describe a signature can be read back: behind its label each line holds a
pattern, numbers or a name, and each word has a line of its own (`Description.read?`). What is
read is what was described (`read?_describe`), so the lines of two signatures are the same
exactly if the signatures are equivalent. The pattern and the words, which are printed apart,
say the same: each token stands in its own lane (`lanesAgree_ofSignature`).
-/
import SigScan.Command.Compile
import SigScan.Proofs.Signature.Padding
import SigScan.Proofs.Text.Digits

namespace SigScan

open SigScan.Text

namespace Command.Compile

/-! ## Reading a line -/

/-- What is left of a line behind a label. -/
def behind? (label : String) (cs : List Char) : Option (List Char) :=
  cs.dropPrefix? label.toList

/-- A number at the front of a line, and what is left behind it. -/
def number? (cs : List Char) : Option (Nat × List Char) :=
  match Decimal.run cs with
  | ([], _) => none
  | (ds, rest) => some (Digits.value 10 ds, rest)

/-- A word of sixteen digits at the front of a line, and what is left behind it. -/
def word? (cs : List Char) : Option (UInt64 × List Char) :=
  match Hex.number UInt64.size (cs.take 16) with
  | .error _ => none
  | .ok n => some (UInt64.ofNat n, cs.drop 16)

/-- The choice that has a name. -/
def named? {α : Type} (choices : List α) (name : α → String) (cs : List Char) : Option α :=
  choices.find? fun a => (name a).toList == cs

theorem behind?_append (label : String) (cs : List Char) :
    behind? label (label.toList ++ cs) = some cs :=
  List.dropPrefix?_append_of_beq cs (beq_self_eq_true _)

theorem number?_toString (n : Nat) {rest : List Char} (hr : Decimal.startsWithDigit rest = false) :
    number? ((toString n).toList ++ rest) = some (n, rest) := by
  rw [Decimal.toList_toString, number?, Decimal.run_text n hr]
  split
  · next hnil => exact absurd (congrArg Prod.fst hnil) (Digits.ofNat_ne_nil 10 n)
  · next heq =>
    obtain ⟨rfl, rfl⟩ := Prod.mk.inj heq
    rw [Digits.value_ofNat]

/-- A word in front of a text is read back, whatever follows it. -/
theorem word?_word (w : UInt64) (rest : List Char) :
    word? ((Hex.word w).toList ++ rest) = some (w, rest) := by
  have hlen := Hex.length_word w
  rw [word?, List.take_left' hlen, List.drop_left' hlen, Hex.number_word]
  simp

/-! ## Reading a description -/

/-- What the lines of a description say. -/
structure Description where
  pattern : Pattern
  rawLen : Nat
  paddedLen : Nat
  offset : UInt32
  mode : Mode
  idiom : Idiom
  words : List MaskedWord
deriving DecidableEq

namespace Description

/-- The description of a signature. -/
def ofSignature (s : Signature) : Description where
  pattern := s.paddedTokens
  rawLen := s.rawLen
  paddedLen := s.paddedLen
  offset := s.offset
  mode := s.mode
  idiom := s.idiom
  words := s.words

/-! Each of these reads one kind of line, behind its label. -/

def patternOf? (line : String) : Option Pattern := do
  let cs ← behind? "Pattern:  " line.toList
  (Pattern.parse (String.ofList cs)).toOption

def lengthsOf? (line : String) : Option (Nat × Nat) := do
  let cs ← behind? "Length:   " line.toList
  let (rawLen, cs) ← number? cs
  let cs ← behind? " bytes (" cs
  let (paddedLen, _) ← number? cs
  return (rawLen, paddedLen)

def offsetOf? (line : String) : Option UInt32 := do
  let cs ← behind? "Offset:   " line.toList
  let (offset, _) ← number? cs
  return UInt32.ofNat offset

def modeOf? (line : String) : Option Mode := do
  let cs ← behind? "Mode:     " line.toList
  named? [.direct, .relativeDisplacement] Mode.name cs

def idiomOf? (line : String) : Option Idiom := do
  let cs ← behind? "Idiom:    " line.toList
  named? [.direct, .nearCallOrJump, .explicitRelative] Idiom.name cs

/-- The word of a line, whatever its number. -/
def wordOf? (line : String) : Option MaskedWord := do
  let cs ← behind? "[" line.toList
  let (_, cs) ← number? cs
  let cs ← behind? "] data 0x" cs
  let (data, cs) ← word? cs
  let cs ← behind? "  mask 0x" cs
  let (mask, _) ← word? cs
  return ⟨data, mask⟩

/-- Reads a description. -/
def read? : List String → Option Description
  | pattern :: lengths :: offset :: mode :: idiom :: _ :: words => do
    let pattern ← patternOf? pattern
    let (rawLen, paddedLen) ← lengthsOf? lengths
    let offset ← offsetOf? offset
    let mode ← modeOf? mode
    let idiom ← idiomOf? idiom
    let words ← words.mapM wordOf?
    return ⟨pattern, rawLen, paddedLen, offset, mode, idiom, words⟩
  | _ => none

/-! ## What is written is read -/

theorem patternOf?_line {tokens : Pattern} (h : tokens ≠ []) :
    patternOf? s!"Pattern:  {tokens.format}" = some tokens := by
  have hline : s!"Pattern:  {tokens.format}" = "Pattern:  " ++ tokens.format := rfl
  simp only [patternOf?, hline, String.toList_append, behind?_append, Option.bind_eq_bind,
    Option.bind_some, String.ofList_toList, Pattern.parse_format h]
  rfl

theorem lengthsOf?_line (rawLen paddedLen : Nat) :
    lengthsOf? s!"Length:   {rawLen} bytes ({paddedLen} padded)" = some (rawLen, paddedLen) := by
  have hline : s!"Length:   {rawLen} bytes ({paddedLen} padded)" =
      "Length:   " ++ toString rawLen ++ " bytes (" ++ toString paddedLen ++ " padded)" := rfl
  have hbytes : ∀ rest, Decimal.startsWithDigit (" bytes (".toList ++ rest) = false :=
    fun _ => rfl
  have hpadded : Decimal.startsWithDigit " padded)".toList = false := rfl
  simp only [lengthsOf?, hline, String.toList_append, List.append_assoc, behind?_append,
    Option.bind_eq_bind, Option.bind_some, number?_toString _ (hbytes _),
    number?_toString _ hpadded]
  rfl

theorem offsetOf?_line (offset : UInt32) :
    offsetOf? s!"Offset:   {offset.toNat}" = some offset := by
  have hline : s!"Offset:   {offset.toNat}" = "Offset:   " ++ toString offset.toNat := rfl
  have hnumber : number? (toString offset.toNat).toList = some (offset.toNat, []) := by
    simpa using number?_toString offset.toNat (show Decimal.startsWithDigit [] = false from rfl)
  simp only [offsetOf?, hline, String.toList_append, behind?_append, Option.bind_eq_bind,
    Option.bind_some, hnumber, UInt32.ofNat_toNat]
  rfl

theorem modeOf?_line (mode : Mode) : modeOf? s!"Mode:     {mode.name}" = some mode := by
  cases mode with
  | direct => decide
  | relativeDisplacement => decide

theorem idiomOf?_line (idiom : Idiom) : idiomOf? s!"Idiom:    {idiom.name}" = some idiom := by
  cases idiom with
  | direct => decide
  | nearCallOrJump => decide
  | explicitRelative => decide

theorem wordOf?_wordLine (index : Nat) (w : MaskedWord) : wordOf? (wordLine index w) = some w := by
  have hline : wordLine index w =
      "[" ++ toString index ++ "] data 0x" ++ Hex.word w.data ++ "  mask 0x" ++ Hex.word w.mask :=
    rfl
  have hdata : ∀ rest, Decimal.startsWithDigit ("] data 0x".toList ++ rest) = false :=
    fun _ => rfl
  have hmask : word? (Hex.word w.mask).toList = some (w.mask, []) := by
    simpa using word?_word w.mask []
  simp only [wordOf?, hline, String.toList_append, List.append_assoc, behind?_append,
    Option.bind_eq_bind, Option.bind_some, number?_toString _ (hdata _), word?_word, hmask]
  rfl

theorem mapM_wordLines (index : Nat) (ws : List MaskedWord) :
    (wordLines index ws).mapM wordOf? = some ws := by
  induction ws generalizing index with
  | nil => rfl
  | cons w ws ih => simp [wordLines, wordOf?_wordLine, ih]

/-- A description is read as what it was written from. -/
theorem read?_describe {s : Signature} (h : s.paddedTokens ≠ []) :
    read? (describe s) = some (ofSignature s) := by
  have hpattern : patternOf? s!"Pattern:  {s.paddedPattern}" = some s.paddedTokens :=
    patternOf?_line h
  simp only [read?, describe, List.cons_append, List.nil_append, hpattern, lengthsOf?_line,
    offsetOf?_line, modeOf?_line, idiomOf?_line, mapM_wordLines, Option.bind_eq_bind,
    Option.bind_some]
  rfl

/-! ## The pattern and the words -/

/-- A token in a lane of a word: a literal byte with all bits of the mask, or a wildcard with
no bit of mask and data. -/
def Stands (w : MaskedWord) (k : Nat) : Token → Prop
  | .byte b => Bytes.lane w.mask k = 0xFF ∧ Bytes.lane w.data k = b
  | .any => Bytes.lane w.mask k = 0 ∧ Bytes.lane w.data k = 0

/-- The pattern has a token for each lane of the words, and it stands there. -/
structure LanesAgree (d : Description) : Prop where
  length_eq : d.pattern.length = 8 * d.words.length
  stands : ∀ i t, d.pattern[i]? = some t → ∃ w, d.words[i / 8]? = some w ∧ Stands w (i % 8) t

/-- A word that was packed from tokens has each of them in its lane, and wildcards in the
lanes that are left. -/
theorem stands_ofTokens (tokens : Pattern) {k : Nat} (hk : k < 8) :
    Stands (.ofTokens tokens) k (tokens[k]?.getD .any) := by
  have hdata := MaskedWord.lane_data_ofTokens tokens hk
  have hmask := MaskedWord.lane_mask_ofTokens tokens hk
  cases ht : tokens[k]? with
  | none =>
    rw [ht] at hdata hmask
    exact ⟨hmask, hdata⟩
  | some t =>
    rw [ht] at hdata hmask
    cases t with
    | byte b => exact ⟨hmask, hdata⟩
    | any => exact ⟨hmask, hdata⟩

theorem lanesAgree_ofSignature {tokens : Pattern} {s : Signature}
    (h : Signature.Compiles tokens s) : (ofSignature s).LanesAgree where
  length_eq := by
    rw [ofSignature, Signature.paddedTokens_eq, List.length_map, List.length_range,
      Signature.paddedLen]
  stands := by
    intro i t ht
    rw [ofSignature, Signature.paddedTokens_eq, List.getElem?_map, Option.map_eq_some_iff] at ht
    obtain ⟨j, hj, rfl⟩ := ht
    obtain ⟨hlt, rfl⟩ := List.getElem?_eq_some_iff.1 hj
    rw [List.length_range] at hlt
    rw [List.getElem_range]
    have hword : i / 8 < (tokens.length + 7) / 8 := by
      rw [h.paddedLen_eq] at hlt
      omega
    have hstands := stands_ofTokens ((tokens.drop (8 * (i / 8))).take 8)
      (Nat.mod_lt i (by decide))
    rw [List.getElem?_take_of_lt (Nat.mod_lt i (by decide)), List.getElem?_drop,
      Nat.div_add_mod, ← h.tokenAt_eq] at hstands
    refine ⟨_, ?_, hstands⟩
    rw [ofSignature, h.fields.2.1, Pattern.getElem?_pack, if_pos hword]

end Description

/-! ## What a description identifies -/

theorem describe_congr {a b : Signature} (h : a.isEquivalent b = true) :
    describe a = describe b := by
  obtain ⟨hw, hr, ho, hi⟩ := Signature.isEquivalent_iff.1 h
  simp only [describe, Signature.paddedPattern, Signature.paddedTokens, Signature.paddedLen,
    Signature.mode, hw, hr, ho, hi]

/-- Lines that say the same come from equivalent signatures. -/
theorem describe_eq_iff {as bs : Pattern} {a b : Signature} (ha : Signature.Compiles as a)
    (hb : Signature.Compiles bs b) : describe a = describe b ↔ a.isEquivalent b = true := by
  refine ⟨fun h => ?_, describe_congr⟩
  have hread := Description.read?_describe ha.paddedTokens_ne_nil
  rw [h, Description.read?_describe hb.paddedTokens_ne_nil] at hread
  obtain ⟨-, hr, -, ho, -, hi, hw⟩ :=
    (Description.mk.injEq ..).mp (Option.some.inj hread)
  exact Signature.isEquivalent_iff.2 ⟨hw.symm, hr.symm, ho.symm, hi.symm⟩

theorem lines_run {text : String} {offset : Option UInt32} {s : Signature}
    (h : Signature.compile text offset = .ok s) (name : Option String) :
    (run text offset name).lines =
      (name.map fun n => s!"Name:     {n}").toList ++ describe s := by
  rw [run, h]

/-- Two signatures are described in the same lines exactly if they are equivalent, and so are
the lines that compiling them prints; the lines of a signature give back its lengths, its offset,
its idiom and all of its words, and the pattern among them agrees with the words lane by lane. -/
theorem output_identifies {textA textB : String} {x y : Option UInt32} {a b : Signature}
    (ha : Signature.compile textA x = .ok a) (hb : Signature.compile textB y = .ok b) :
    (describe a = describe b ↔ a.isEquivalent b = true)
    ∧ (∀ name, (run textA x name).lines = (run textB y name).lines ↔ a.isEquivalent b = true)
    ∧ Description.read? (describe a) = some (.ofSignature a)
    ∧ (Description.ofSignature a).LanesAgree := by
  obtain ⟨as, has⟩ := Signature.IsCompiled.exists_tokens ⟨textA, x, ha⟩
  obtain ⟨bs, hbs⟩ := Signature.IsCompiled.exists_tokens ⟨textB, y, hb⟩
  have hiff := describe_eq_iff has hbs
  refine ⟨hiff, fun name => ?_, Description.read?_describe has.paddedTokens_ne_nil,
    Description.lanesAgree_ofSignature has⟩
  rw [lines_run ha, lines_run hb, List.append_right_inj, hiff]

/-- Spelled in another way a signature is described alike; with one more wildcard it has the
same words and is not. -/
theorem output_identifies_spelling :
    (run "48 8b" none none).lines = (run " 48  8B " none none).lines
    ∧ (run "48 8b" none none).lines ≠ (run "48 8b ?" none none).lines := by
  have hplain : Signature.compile "48 8b" none =
      .ok ⟨"48 8b", [⟨0x8B48, 0xFFFF⟩], 2, 0, .direct, 0, 0x48⟩ := rfl
  have hspelled : Signature.compile " 48  8B " none =
      .ok ⟨"48  8B", [⟨0x8B48, 0xFFFF⟩], 2, 0, .direct, 0, 0x48⟩ := rfl
  have hlonger : Signature.compile "48 8b ?" none =
      .ok ⟨"48 8b ?", [⟨0x8B48, 0xFFFF⟩], 3, 0, .direct, 0, 0x48⟩ := rfl
  obtain ⟨-, hsame, -⟩ := output_identifies hplain hspelled
  obtain ⟨-, hother, -⟩ := output_identifies hplain hlonger
  refine ⟨(hsame none).2 rfl, fun h => ?_⟩
  exact absurd ((hother none).1 h) (by decide)

end Command.Compile

end SigScan
