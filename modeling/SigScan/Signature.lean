/-
SigScan.Signature — compiled signatures.

Compiling a pattern text packs its tokens into masked words, remembers the first
literal byte as the place to search for, and fixes the idiom and the offset of
resolution. A compiled signature is compared with memory a word at a time.

Main statements: what compiling keeps of the tokens (`compile_eq_ok_iff`), the padded
tokens are those at each place (`paddedTokens_eq`), and two signatures that are equivalent
agree in every field that decides matches and resolution (`isEquivalent_iff`).
-/
import SigScan.Signature.Idiom
import SigScan.Signature.Packed

namespace SigScan

/-- A pattern ready to be searched for. -/
structure Signature where
  /-- The text as its author wrote it, without the blanks at its ends. -/
  pattern : String
  /-- The packed tokens. -/
  words : List MaskedWord
  /-- Number of tokens, before the last word is filled up. -/
  rawLen : Nat
  /-- Where resolution starts, counted from the match. -/
  offset : UInt32
  idiom : Idiom
  /-- Place of the first literal byte. -/
  anchorIndex : Nat
  /-- Value of the first literal byte. -/
  anchorByte : UInt8
deriving DecidableEq, Repr

/-- A pattern text that is refused, and why. -/
structure Pattern.Malformed where
  /-- The text with its blanks. -/
  text : String
  fault : Pattern.Fault
deriving DecidableEq, Repr

/-- The message that quotes a refused text and gives the reason. -/
def Pattern.refusal (text reason : String) : String :=
  s!"Malformed signature '{text}': {reason}"

/-- The message of a refused pattern text. -/
def Pattern.Malformed.message (m : Pattern.Malformed) : String :=
  Pattern.refusal m.text m.fault.reason

namespace Signature

/-- The value of the last field of generated registrations. Nothing depends on it; it is
shown with the others. -/
def reserved : UInt64 := 0

/-- How a match of this signature becomes an address. -/
def mode (s : Signature) : Mode :=
  s.idiom.mode

/-- Length with the wildcards that fill up the last word. -/
def paddedLen (s : Signature) : Nat :=
  8 * s.words.length

/-- The signature of a pattern with the given text, unless it has only wildcards. -/
def ofTokens (text : String) (tokens : Pattern) (offset : Option UInt32) :
    Except Pattern.Fault Signature :=
  match tokens, tokens.anchor? with
  | first :: _, some (index, byte) =>
    let (idiom, start) := Idiom.classify first offset
    .ok {
      pattern := String.ofList (Text.trim text.toList)
      words := tokens.pack
      rawLen := tokens.length
      offset := start
      idiom := idiom
      anchorIndex := index
      anchorByte := byte }
  | _, _ => .error .noLiteral

/-- Compiles a pattern text. An author's offset of zero means that the match is the
address; any other names the place of the displacement. -/
def compile (text : String) (offset : Option UInt32) : Except Pattern.Malformed Signature :=
  match Pattern.parse text with
  | .error fault => .error ⟨text, fault⟩
  | .ok tokens => (ofTokens text tokens offset).mapError (Pattern.Malformed.mk text)

theorem ofTokens_eq_ok_iff {text : String} {tokens : Pattern} {offset : Option UInt32}
    {s : Signature} :
    ofTokens text tokens offset = .ok s ↔
      ∃ first rest, tokens = first :: rest ∧ tokens.anchor? = some (s.anchorIndex, s.anchorByte)
        ∧ s.pattern = String.ofList (Text.trim text.toList) ∧ s.words = tokens.pack
        ∧ s.rawLen = tokens.length ∧ Idiom.classify first offset = (s.idiom, s.offset) := by
  obtain ⟨pattern, words, rawLen, start, idiom, index, byte⟩ := s
  cases tokens with
  | nil => simp [ofTokens]
  | cons first rest =>
    cases ha : Pattern.anchor? (first :: rest) with
    | none => simp [ofTokens, ha]
    | some anchor =>
      obtain ⟨i, b⟩ := anchor
      simp only [ofTokens, ha, Except.ok.injEq, Signature.mk.injEq, List.cons.injEq,
        Option.some.injEq, Prod.mk.injEq]
      constructor
      · rintro ⟨rfl, rfl, rfl, rfl, rfl, rfl, rfl⟩
        exact ⟨first, rest, ⟨rfl, rfl⟩, ⟨rfl, rfl⟩, rfl, rfl, rfl, rfl⟩
      · rintro ⟨_, _, ⟨rfl, rfl⟩, ⟨rfl, rfl⟩, rfl, rfl, rfl, hc⟩
        rw [hc]
        exact ⟨rfl, rfl, rfl, rfl, rfl, rfl, rfl⟩

/-- A text is compiled exactly if it can be read and has a literal byte; the signature
holds its packed tokens, their number, the first literal byte, and the idiom. -/
theorem compile_eq_ok_iff {text : String} {offset : Option UInt32} {s : Signature} :
    compile text offset = .ok s ↔
      ∃ first rest, Pattern.parse text = .ok (first :: rest)
        ∧ Pattern.anchor? (first :: rest) = some (s.anchorIndex, s.anchorByte)
        ∧ s.pattern = String.ofList (Text.trim text.toList)
        ∧ s.words = Pattern.pack (first :: rest) ∧ s.rawLen = rest.length + 1
        ∧ Idiom.classify first offset = (s.idiom, s.offset) := by
  unfold compile
  cases Pattern.parse text with
  | error fault => simp
  | ok tokens =>
    have hm : (ofTokens text tokens offset).mapError (Pattern.Malformed.mk text) = .ok s ↔
        ofTokens text tokens offset = .ok s := by
      cases ofTokens text tokens offset with
      | error fault => exact ⟨nofun, nofun⟩
      | ok s' =>
        exact ⟨fun h => congrArg _ (Except.ok.inj h), fun h => congrArg _ (Except.ok.inj h)⟩
    simp only [hm, ofTokens_eq_ok_iff, Except.ok.injEq]
    constructor
    · rintro ⟨first, rest, rfl, h⟩
      exact ⟨first, rest, rfl, h⟩
    · rintro ⟨first, rest, rfl, h⟩
      exact ⟨first, rest, rfl, h⟩

/-! ## Tokens of a compiled signature -/

/-- The token at a place, a wildcard in the filling and past the end. -/
def tokenAt (s : Signature) (i : Nat) : Token :=
  match s.words[i / 8]? with
  | none => .any
  | some w => w.token (i % 8)

/-- The tokens with the wildcards that fill up the last word. -/
def paddedTokens (s : Signature) : Pattern :=
  s.words.flatMap fun w => (List.range 8).map w.token

/-- The written form of the pattern with its filling. -/
def paddedPattern (s : Signature) : String :=
  s.paddedTokens.format

/-- The lanes of words one after another are the places from zero on. -/
theorem flatMap_token (words : List MaskedWord) :
    (words.flatMap fun w => (List.range 8).map w.token) =
      (List.range (8 * words.length)).map fun i =>
        match words[i / 8]? with
        | none => .any
        | some w => w.token (i % 8) := by
  induction words with
  | nil => rfl
  | cons w ws ih =>
    have hlen : 8 * (ws.length + 1) = 8 + 8 * ws.length := by omega
    rw [List.flatMap_cons, ih, List.length_cons, hlen, List.range_add, List.map_append,
      List.map_map]
    refine congr (congrArg HAppend.hAppend (List.map_congr_left fun i hi => ?_))
      (List.map_congr_left fun i _ => ?_)
    · have hlt : i < 8 := List.mem_range.1 hi
      simp [Nat.div_eq_of_lt hlt, Nat.mod_eq_of_lt hlt]
    · simp [Nat.add_div_left]

/-- The tokens with their filling are those at each place of the padded length. -/
theorem paddedTokens_eq (s : Signature) :
    s.paddedTokens = (List.range s.paddedLen).map s.tokenAt :=
  flatMap_token s.words

/-! ## Comparison with memory -/

/-- Whether the words of memory from `start` on are accepted one after another. Places
past the end of the bytes count as zero. -/
def acceptsFrom : List MaskedWord → ByteArray → Nat → Bool
  | [], _, _ => true
  | w :: ws, bytes, start =>
    w.accepts (Bytes.wordAt bytes start) && acceptsFrom ws bytes (start + 8)

/-- Whether the signature matches at the start of a window. A window shorter than the
padded length never matches. -/
def matchesWindow (s : Signature) (window : ByteArray) : Bool :=
  decide (s.paddedLen ≤ window.size) && acceptsFrom s.words window 0

/-- Whether the signature matches at a place where its tokens fit; the filling may reach
past the end. The first literal byte is looked at first. -/
@[inline] def matchesAt (s : Signature) (bytes : ByteArray) (start : Nat) : Bool :=
  Bytes.holdsAt bytes (start + s.anchorIndex) s.anchorByte && acceptsFrom s.words bytes start

/-! ## Equivalence -/

/-- Equivalent signatures match the same bytes and resolve in the same way, however their
texts are spelled. -/
def isEquivalent (a b : Signature) : Bool :=
  a.words == b.words && a.rawLen == b.rawLen && a.offset == b.offset && a.idiom == b.idiom

theorem isEquivalent_iff {a b : Signature} :
    a.isEquivalent b = true ↔
      a.words = b.words ∧ a.rawLen = b.rawLen ∧ a.offset = b.offset ∧ a.idiom = b.idiom := by
  simp [isEquivalent, and_assoc]

end Signature

end SigScan
