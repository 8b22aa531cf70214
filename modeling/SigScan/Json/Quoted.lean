/-
SigScan.Json.Quoted — strings between quotes.

A string is written between quotes. A quote, a backslash and the control characters are
escaped: the usual ones by a letter, the others as `\u00xx`; every other character
stands for itself. When read, a character may also be given by its code in four
hexadecimal digits, or by two codes if it lies outside the basic plane.

Main statement: a written string reads back (`stringRest_quote`).
-/
import SigScan.Json.Reader
import SigScan.Text.Hex

namespace SigScan.Json

/-! ## Writing -/

/-- How a character is written between quotes. -/
def escaped (c : Char) : List Char :=
  match c with
  | '"' => ['\\', '"']
  | '\\' => ['\\', '\\']
  | '\n' => ['\\', 'n']
  | '\r' => ['\\', 'r']
  | '\t' => ['\\', 't']
  | '\x08' => ['\\', 'b']
  | '\x0c' => ['\\', 'f']
  | c =>
    if c.toNat < 32 then '\\' :: 'u' :: (Text.Digits.fixed 16 4 c.toNat).map Text.Hex.lower
    else [c]

/-- A string between quotes. -/
def quote (s : String) : List Char :=
  '"' :: (s.toList.flatMap escaped ++ ['"'])

/-! ## Reading -/

/-- Number of bytes that characters take as UTF-8. -/
def utf8Length (cs : List Char) : Nat :=
  cs.foldl (fun n c => n + c.utf8Size) 0

/-- A code in four hexadecimal digits. With fewer than four bytes left the text is cut
short, whatever they are. -/
def code : Reader Nat
  | a :: b :: c :: d :: rest =>
    match Text.Hex.value? a, Text.Hex.value? b, Text.Hex.value? c, Text.Hex.value? d with
    | some w, some x, some y, some z => .ok (Text.Digits.value 16 [w, x, y, z], rest)
    | _, _, _, _ => .error .malformed
  | few => .error (if utf8Length few < 4 then .truncated else .malformed)

/-- Whether a code is the first of two. -/
def isHigh (n : Nat) : Bool :=
  decide (0xD800 ≤ n) && decide (n ≤ 0xDBFF)

/-- Whether a code is the second of two. -/
def isLow (n : Nat) : Bool :=
  decide (0xDC00 ≤ n) && decide (n ≤ 0xDFFF)

/-- The second of two codes. -/
def lowCode : Reader Nat
  | [] => .error .truncated
  | ['\\'] => .error .truncated
  | '\\' :: 'u' :: rest =>
    match code rest with
    | .error fault => .error fault
    | .ok (n, rest) => if isLow n then .ok (n, rest) else .error .malformed
  | _ => .error .malformed

/-- The character that codes give. Where `lone` is set, one code of two may stand alone,
and its place is held by another character. -/
def coded (lone : Bool) : Reader Char := fun cs =>
  match code cs with
  | .error fault => .error fault
  | .ok (n, rest) =>
    if lone then .ok (Char.ofNat n, rest)
    else if isLow n then .error .malformed
    else if isHigh n then
      match lowCode rest with
      | .error fault => .error fault
      | .ok (m, rest) => .ok (Char.ofNat (0x10000 + (n - 0xD800) * 0x400 + (m - 0xDC00)), rest)
    else .ok (Char.ofNat n, rest)

/-- The character that stands for itself or for a control character behind a backslash. -/
def escape? : Char → Option Char
  | '"' => some '"'
  | '\\' => some '\\'
  | '/' => some '/'
  | 'b' => some '\x08'
  | 'f' => some '\x0c'
  | 'n' => some '\n'
  | 'r' => some '\r'
  | 't' => some '\t'
  | _ => none

/-- One character of a string behind its backslash. -/
def escapeRest (lone : Bool) : Reader Char
  | [] => .error .truncated
  | 'u' :: rest => coded lone rest
  | c :: rest =>
    match escape? c with
    | some d => .ok (d, rest)
    | none => .error .malformed

/-- The characters of a string up to its closing quote, behind those of `done`, which are
given backwards. Each step takes a character or more, so `bound` need not be longer than
the text that is left. -/
def contents (lone : Bool) : List Char → List Char → Reader (List Char)
  | [], _, _ => .error .truncated
  | _ :: _, _, [] => .error .truncated
  | _ :: bound, done, c :: rest =>
    if c = '"' then .ok (done.reverse, rest)
    else if c = '\\' then
      match escapeRest lone rest with
      | .error fault => .error fault
      | .ok (d, rest) => contents lone bound (d :: done) rest
    else if c.toNat < 32 then .error .malformed
    else contents lone bound (c :: done) rest

/-- A string behind its opening quote. -/
def stringRest : Reader String := fun cs =>
  match contents false cs [] cs with
  | .error fault => .error fault
  | .ok (found, rest) => .ok (String.ofList found, rest)

/-! ## Reading what was written -/

theorem coded_fixed {n : Nat} (h : n < 0xD800) (rest : List Char) :
    coded false ((Text.Digits.fixed 16 4 n).map Text.Hex.lower ++ rest) =
      .ok (Char.ofNat n, rest) := by
  have hv : ∀ m : Nat, Text.Hex.value? (Text.Hex.lower (m % 16)) = some (m % 16) := fun m =>
    Text.Hex.value?_lower (Nat.mod_lt _ (by decide))
  have hd := Text.Digits.value_fixed 16 4 n
  have hlt : n < Text.Digits.scale 16 4 := by
    rw [show Text.Digits.scale 16 4 = 65536 from rfl]
    omega
  rw [Nat.mod_eq_of_lt hlt] at hd
  simp only [Text.Digits.fixed, List.nil_append, List.cons_append, List.map_cons,
    List.map_nil] at hd ⊢
  have hl : isLow n = false := by simp [isLow]; omega
  have hh : isHigh n = false := by simp [isHigh]; omega
  simp only [coded, code, hv, hd, hl, hh, Bool.false_eq_true, if_false]

/-- Each written character reads back. -/
theorem contents_escaped (c b : Char) (bound done rest : List Char) :
    contents false (b :: bound) done (escaped c ++ rest) =
      contents false bound (c :: done) rest := by
  unfold escaped
  split
  case h_8 h1 h2 h3 h4 h5 h6 h7 =>
    split
    · next h =>
      rw [List.cons_append, List.cons_append, contents, if_neg (by decide), if_pos rfl,
        escapeRest, coded_fixed (by omega), Char.ofNat_toNat]
    · next h =>
      have hq : c ≠ '"' := h1
      have hb : c ≠ '\\' := h2
      rw [List.cons_append, List.nil_append, contents, if_neg hq, if_neg hb, if_neg h]
  all_goals rfl

theorem contents_flatMap_escaped (s done rest bound : List Char)
    (h : s.length < bound.length) :
    contents false bound done (s.flatMap escaped ++ '"' :: rest) =
      .ok (done.reverse ++ s, rest) := by
  induction s generalizing bound done with
  | nil =>
    obtain ⟨b, bs, rfl⟩ := List.exists_cons_of_length_pos (by omega : 0 < bound.length)
    simp [contents]
  | cons c s ih =>
    obtain ⟨b, bs, rfl⟩ := List.exists_cons_of_length_pos (by omega : 0 < bound.length)
    rw [List.flatMap_cons, List.append_assoc, contents_escaped, ih _ _ (by simpa using h)]
    simp

theorem one_le_length_escaped (c : Char) : 1 ≤ (escaped c).length := by
  unfold escaped
  split <;> try decide
  split <;> simp

theorem length_le_length_flatMap_escaped (s : List Char) :
    s.length ≤ (s.flatMap escaped).length := by
  induction s with
  | nil => simp
  | cons c s ih =>
    have := one_le_length_escaped c
    simp only [List.flatMap_cons, List.length_append, List.length_cons]
    omega

/-- A written string reads back, whatever follows it. -/
theorem stringRest_quote (s : String) (rest : List Char) :
    stringRest ((quote s).tail ++ rest) = .ok (s, rest) := by
  have hl := length_le_length_flatMap_escaped s.toList
  simp only [quote, List.tail_cons, List.append_assoc, List.cons_append, List.nil_append,
    stringRest]
  rw [contents_flatMap_escaped]
  · simp
  · simp only [List.length_append, List.length_cons]
    omega

end SigScan.Json
