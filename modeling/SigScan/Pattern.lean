/-
SigScan.Pattern — byte patterns with wildcards and their text.

A pattern is a list of tokens, each a literal byte or a wildcard. Its text is a
sequence of words: two hexadecimal digits in either case for a byte, `?` or `??` for a
wildcard. The written form uses upper-case digits, `??`, and single spaces.

A word is read by its bytes: two of them, both digits, are read as a number. Main
statements: so read, a word gives the token that it stands for (`readWord_eq`), a text is
read word by word (`parse_eq_ok_iff`), and the written form of a pattern reads back
(`parse_format`).
-/
import SigScan.Text.Blank
import SigScan.Text.Hex

namespace SigScan

/-- One place of a pattern: a byte that must be there, or any byte. -/
inductive Token where
  | byte (value : UInt8)
  | any
deriving DecidableEq, Repr, Inhabited

namespace Token

/-- The token that a word stands for. -/
def ofWord? : List Char → Option Token
  | ['?'] => some any
  | ['?', '?'] => some any
  | [a, b] =>
    match Text.Hex.value? a, Text.Hex.value? b with
    | some hi, some lo => some (byte (UInt8.ofNat (16 * hi + lo)))
    | _, _ => none
  | _ => none

/-- The word that stands for a token. -/
def word : Token → List Char
  | byte b => Text.Hex.byte b
  | any => ['?', '?']

/-- Whether a byte may stand at this place. -/
def admits : Token → UInt8 → Bool
  | byte b, x => x == b
  | any, _ => true

/-- The literal byte of a token. -/
def byte? : Token → Option UInt8
  | byte b => some b
  | any => none

theorem ofWord?_pair {a b : Char} {hi lo : Nat} (ha : Text.Hex.value? a = some hi)
    (hb : Text.Hex.value? b = some lo) :
    ofWord? [a, b] = some (byte (UInt8.ofNat (16 * hi + lo))) := by
  rw [ofWord?, ha, hb]
  intro hq
  have hnone : Text.Hex.value? '?' = none := by decide
  rw [hq, hnone] at ha
  contradiction

/-- A word that stands for a token is a wildcard or a pair of digits. -/
theorem ofWord?_eq_some_iff {w : List Char} {t : Token} :
    ofWord? w = some t ↔
      (w = ['?'] ∧ t = any) ∨ (w = ['?', '?'] ∧ t = any) ∨
      ∃ a b hi lo, w = [a, b] ∧ Text.Hex.value? a = some hi ∧ Text.Hex.value? b = some lo
        ∧ t = byte (UInt8.ofNat (16 * hi + lo)) := by
  constructor
  · intro h
    fun_cases ofWord? w with
    | case1 => exact .inl ⟨rfl, (Option.some.inj h).symm⟩
    | case2 => exact .inr (.inl ⟨rfl, (Option.some.inj h).symm⟩)
    | case3 a b hany hi lo ha hb =>
      rw [ofWord?_pair hb ha] at h
      exact .inr (.inr ⟨a, b, hi, lo, rfl, hb, ha, (Option.some.inj h).symm⟩)
    | case4 => simp_all [ofWord?]
    | case5 => simp_all [ofWord?]
  · rintro (⟨rfl, rfl⟩ | ⟨rfl, rfl⟩ | ⟨a, b, hi, lo, rfl, ha, hb, rfl⟩)
    · rfl
    · rfl
    · exact ofWord?_pair ha hb

/-- Written tokens read back. -/
theorem ofWord?_word (t : Token) : ofWord? t.word = some t := by
  cases t with
  | any => rfl
  | byte b =>
    have hlt := b.toNat_lt
    have hw : word (byte b) =
        [Text.Hex.upper (b.toNat / 16), Text.Hex.upper (b.toNat % 16)] := by
      simp [word, Text.Hex.byte, Text.Digits.fixed, show b.toNat / 16 % 16 = b.toNat / 16 by omega]
    have hb : 16 * (b.toNat / 16) + b.toNat % 16 = b.toNat := Nat.div_add_mod b.toNat 16
    rw [hw, ofWord?_pair (Text.Hex.value?_upper (by omega)) (Text.Hex.value?_upper (by omega)), hb,
      UInt8.ofNat_toNat]

/-- A written token holds no blank. -/
theorem isBlank_of_mem_word {t : Token} {c : Char} (h : c ∈ t.word) :
    Text.isBlank c = false := by
  have hup : ∀ d, d < 16 → Text.isBlank (Text.Hex.upper d) = false := by decide
  cases t with
  | any => simp [word] at h; subst h; decide
  | byte b =>
    have := b.toNat_lt
    simp [word, Text.Hex.byte, Text.Digits.fixed] at h
    rcases h with h | h <;> subst h <;> exact hup _ (by omega)

theorem word_ne_nil (t : Token) : t.word ≠ [] := by
  cases t <;> simp [word, Text.Hex.byte, Text.Digits.fixed]

end Token

/-- A byte pattern: what must stand at each place from its start on. -/
abbrev Pattern := List Token

namespace Pattern

/-- Why a pattern text is refused. -/
inductive Fault where
  /-- A word that is neither two hexadecimal digits nor a wildcard. -/
  | invalidToken (word : String)
  /-- A word of two hexadecimal digits whose number no byte holds; there is no such word. -/
  | invalidByte (word : String) (cause : Text.Hex.Fault)
  /-- A text without words. -/
  | empty
  /-- A pattern of wildcards only cannot be searched for. -/
  | noLiteral
deriving DecidableEq, Repr

/-- The reason as messages give it. -/
def Fault.reason : Fault → String
  | .invalidToken word => s!"invalid token '{word}', expected two hex digits or ??"
  | .invalidByte word cause => s!"invalid token '{word}': {cause.text}"
  | .empty => "pattern is empty"
  | .noLiteral => "pattern has no literal bytes"

/-- Whether a word has two bytes in UTF-8, each of them a hexadecimal digit. -/
def isPair (w : List Char) : Bool :=
  let bytes := w.flatMap String.utf8EncodeChar
  bytes.length == 2 && bytes.all Text.Hex.isDigitByte

/-- Reads a word. A pair of digits is read as a number, which a byte must hold. -/
def readWord (w : List Char) : Except Fault Token :=
  if w = ['?', '?'] ∨ w = ['?'] then .ok .any
  else if isPair w then
    match Text.Hex.number UInt8.size w with
    | .error cause => .error (.invalidByte (String.ofList w) cause)
    | .ok n => .ok (.byte (UInt8.ofNat n))
  else .error (.invalidToken (String.ofList w))

/-- Words to tokens; the first word that stands for no token is the fault. -/
def ofWords : List (List Char) → Except Fault Pattern
  | [] => .ok []
  | w :: ws =>
    match readWord w with
    | .error fault => .error fault
    | .ok t => (ofWords ws).map (t :: ·)

/-- Reads a pattern text; it must hold at least one word. -/
def parse (text : String) : Except Fault Pattern :=
  match ofWords (Text.words text.toList) with
  | .error fault => .error fault
  | .ok [] => .error .empty
  | .ok tokens => .ok tokens

/-- The characters of the written form: the words of the tokens, one space between. -/
def chars : Pattern → List Char
  | [] => []
  | [t] => t.word
  | t :: ts => t.word ++ ' ' :: chars ts

/-- The written form of a pattern. -/
def format (tokens : Pattern) : String :=
  String.ofList (chars tokens)

/-- The first literal byte of a pattern and its place. -/
def anchor? (tokens : Pattern) : Option (Nat × UInt8) :=
  match tokens with
  | [] => none
  | .byte b :: _ => some (0, b)
  | .any :: ts => (anchor? ts).map fun (i, b) => (i + 1, b)

/-! ## Reading a word -/

theorem all_flatMap_utf8EncodeChar (w : List Char) :
    (w.flatMap String.utf8EncodeChar).all Text.Hex.isDigitByte =
      w.all fun c => (Text.Hex.value? c).isSome := by
  simp only [List.all_flatMap, Text.Hex.all_utf8EncodeChar]

/-- Digits take one byte each. -/
theorem length_flatMap_utf8EncodeChar {w : List Char}
    (h : ∀ c ∈ w, (Text.Hex.value? c).isSome) :
    (w.flatMap String.utf8EncodeChar).length = w.length := by
  induction w with
  | nil => rfl
  | cons c w ih =>
    rw [List.flatMap_cons, List.length_append, ih fun d hd => h d (List.mem_cons_of_mem c hd),
      Text.Hex.length_utf8EncodeChar (h c List.mem_cons_self), List.length_cons, Nat.add_comm]

/-- Two bytes that are digits are two characters that are digits. -/
theorem isPair_iff {w : List Char} :
    isPair w = true ↔
      ∃ a b hi lo, w = [a, b] ∧ Text.Hex.value? a = some hi ∧ Text.Hex.value? b = some lo := by
  simp only [isPair, Bool.and_eq_true, beq_iff_eq, all_flatMap_utf8EncodeChar, List.all_eq_true]
  constructor
  · rintro ⟨hlen, hall⟩
    rw [length_flatMap_utf8EncodeChar hall] at hlen
    match w, hlen with
    | [a, b], _ =>
      obtain ⟨hi, ha⟩ := Option.isSome_iff_exists.1 (hall a (by simp))
      obtain ⟨lo, hb⟩ := Option.isSome_iff_exists.1 (hall b (by simp))
      exact ⟨a, b, hi, lo, rfl, ha, hb⟩
  · rintro ⟨a, b, hi, lo, rfl, ha, hb⟩
    have hall : ∀ c ∈ [a, b], (Text.Hex.value? c).isSome := by
      simp [ha, hb]
    exact ⟨length_flatMap_utf8EncodeChar hall, hall⟩

/-- The number of a pair of digits is below the size of a byte. -/
theorem number_pair {a b : Char} {hi lo : Nat} (ha : Text.Hex.value? a = some hi)
    (hb : Text.Hex.value? b = some lo) :
    Text.Hex.number UInt8.size [a, b] = .ok (16 * hi + lo) := by
  have hhi := Text.Hex.lt_of_value?_eq_some ha
  have hlo := Text.Hex.lt_of_value?_eq_some hb
  have hsign : a ≠ '+' := by
    have hnone : Text.Hex.value? '+' = none := by decide
    intro hplus
    rw [hplus, hnone] at ha
    contradiction
  have hdigits : [a, b].map Text.Hex.value? = [hi, lo].map some := by
    simp [ha, hb]
  have hsize : [hi, lo].foldl (fun n d => 16 * n + d) 0 < UInt8.size := by
    simp [UInt8.size]
    omega
  rw [Text.Hex.number_of_ne hsign, Text.Hex.numberFrom_eq 0 hdigits hsize]
  simp

/-- A word is read as the token that it stands for, and any other word is named. -/
theorem readWord_eq (w : List Char) :
    readWord w =
      match Token.ofWord? w with
      | none => .error (.invalidToken (String.ofList w))
      | some t => .ok t := by
  rw [readWord]
  split
  · next hany => rcases hany with rfl | rfl <;> rfl
  next hany =>
  split
  · next hpair =>
    obtain ⟨a, b, hi, lo, rfl, ha, hb⟩ := isPair_iff.1 hpair
    rw [number_pair ha hb, Token.ofWord?_pair ha hb]
  · next hpair =>
    have hnone : Token.ofWord? w = none := by
      rw [Option.eq_none_iff_forall_ne_some]
      intro t ht
      rcases Token.ofWord?_eq_some_iff.1 ht with ⟨hw, -⟩ | ⟨hw, -⟩ | ⟨a, b, hi, lo, hw, ha, hb, -⟩
      · exact hany (.inr hw)
      · exact hany (.inl hw)
      · exact hpair (isPair_iff.2 ⟨a, b, hi, lo, hw, ha, hb⟩)
    rw [hnone]

/-- Words are read one by one; only a word that stands for no token is a fault. -/
theorem ofWords_cons (w : List Char) (ws : List (List Char)) :
    ofWords (w :: ws) =
      match Token.ofWord? w with
      | none => .error (.invalidToken (String.ofList w))
      | some t => (ofWords ws).map (t :: ·) := by
  rw [ofWords, readWord_eq]
  cases Token.ofWord? w with
  | none => rfl
  | some t => rfl

/-! ## Reading and writing -/

theorem words_chars (tokens : Pattern) : Text.words (chars tokens) = tokens.map Token.word := by
  induction tokens with
  | nil => rfl
  | cons t ts ih =>
    have ht : ∀ c ∈ t.word, Text.isBlank c = false := fun _ h => Token.isBlank_of_mem_word h
    cases ts with
    | nil => simpa [chars] using Text.words_run t.word_ne_nil ht
    | cons u us =>
      rw [chars, Text.words_run_blank t.word_ne_nil ht (by decide), ih]
      · simp
      · simp

theorem ofWords_map_word (tokens : Pattern) : ofWords (tokens.map Token.word) = .ok tokens := by
  induction tokens with
  | nil => rfl
  | cons t ts ih => simp [ofWords_cons, Token.ofWord?_word, ih, Except.map]

/-- The written form of a pattern reads back. -/
theorem parse_format {tokens : Pattern} (h : tokens ≠ []) : parse (format tokens) = .ok tokens := by
  rw [parse, format, String.toList_ofList, words_chars, ofWords_map_word]
  cases tokens with
  | nil => exact absurd rfl h
  | cons t ts => rfl

theorem ofWords_eq_ok_iff {ws : List (List Char)} {tokens : Pattern} :
    ofWords ws = .ok tokens ↔ ws.map Token.ofWord? = tokens.map some := by
  induction ws generalizing tokens with
  | nil => cases tokens <;> simp [ofWords]
  | cons w ws ih =>
    cases hw : Token.ofWord? w with
    | none => cases tokens <;> simp [ofWords_cons, hw]
    | some t =>
      cases tokens with
      | nil => cases h : ofWords ws <;> simp [ofWords_cons, hw, h, Except.map]
      | cons u us =>
        have := @ih us
        cases h : ofWords ws with
        | error e => simp [h] at this; simp [ofWords_cons, hw, h, Except.map]; intro _; exact this
        | ok ts => rw [h] at this; simp [ofWords_cons, hw, h, Except.map, ← this]

/-- A text is accepted exactly when it has a word and each of its words stands for a token. -/
theorem parse_eq_ok_iff {text : String} {tokens : Pattern} :
    parse text = .ok tokens ↔
      tokens ≠ [] ∧ (Text.words text.toList).map Token.ofWord? = tokens.map some := by
  rw [← ofWords_eq_ok_iff]
  unfold parse
  cases h : ofWords (Text.words text.toList) with
  | error e => simp
  | ok ts =>
    cases ts with
    | nil => simp +contextual [eq_comm]
    | cons t ts => simp +contextual [eq_comm]

end Pattern

end SigScan
