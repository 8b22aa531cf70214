/-
SigScan.Json.Number — numbers, of which only the naturals are wanted.

Every number of the grammar is read: a sign, digits without a needless zero in front, a
fraction, an exponent. A number without fraction and exponent that fits 64 bits is kept
as a natural number; all others count as numbers of another kind, except that one is
malformed if the nearest double is infinite. To tell, its digits are taken as far as 64
bits hold them, and they and the power of ten are each rounded to 53 bits before they
are multiplied. The exponent is taken up to a limit that no text is long enough to make
up for.

Main statement: a written natural number reads back (`number_text`).
-/
import SigScan.Json.Reader
import SigScan.Text.Decimal

namespace SigScan.Json

open SigScan.Text

/-! ## The grammar -/

/-- A number as it is written. -/
structure Numeral where
  negative : Bool
  whole : List Nat
  fraction : Option (List Nat)
  exponent : Option Int
deriving DecidableEq, Repr

/-- One digit or more. -/
def digits : Reader (List Nat) := fun cs =>
  match Decimal.run cs with
  | ([], []) => .error .truncated
  | ([], _ :: _) => .error .malformed
  | (ds, rest) => .ok (ds, rest)

/-- The digits in front of the point. A zero is followed by no other digit. -/
def wholePart : Reader (List Nat) := fun cs =>
  match digits cs with
  | .ok (0 :: _ :: _, _) => .error .malformed
  | result => result

/-- The digits behind the point, if there is a point. -/
def fractionPart : Reader (Option (List Nat))
  | '.' :: cs =>
    match digits cs with
    | .error fault => .error fault
    | .ok (ds, rest) => .ok (some ds, rest)
  | cs => .ok (none, cs)

/-- A sign, if there is one: whether it is a minus. -/
def sign : List Char → Bool × List Char
  | '+' :: cs => (false, cs)
  | '-' :: cs => (true, cs)
  | cs => (false, cs)

/-- The largest exponent that is told from larger ones. -/
def exponentLimit : Nat := Digits.scale 10 18

/-- The exponent, if there is one. -/
def exponentPart : Reader (Option Int)
  | [] => .ok (none, [])
  | c :: cs =>
    if c = 'e' ∨ c = 'E' then
      let (negative, cs) := sign cs
      match digits cs with
      | .error fault => .error fault
      | .ok (ds, rest) =>
        let n : Int := Digits.valueUpTo exponentLimit 10 ds
        .ok (some (if negative then -n else n), rest)
    else .ok (none, c :: cs)

/-- The parts of a number behind its sign. -/
def unsigned (negative : Bool) : Reader Numeral := fun cs =>
  match wholePart cs with
  | .error fault => .error fault
  | .ok (whole, cs) =>
    match fractionPart cs with
    | .error fault => .error fault
    | .ok (fraction, cs) =>
      match exponentPart cs with
      | .error fault => .error fault
      | .ok (exponent, cs) => .ok (⟨negative, whole, fraction, exponent⟩, cs)

/-- A number as it is written. -/
def numeral : Reader Numeral
  | '-' :: cs => unsigned true cs
  | cs => unsigned false cs

/-! ## The value -/

/-- The number that digits behind those of `n` stand for as far as 64 bits hold it, and
how many digits are left over. -/
def capped (n : Nat) : List Nat → Nat × Nat
  | [] => (n, 0)
  | d :: ds => if 10 * n + d < UInt64.size then capped (10 * n + d) ds else (n, ds.length + 1)

/-- A number rounded to 53 binary digits, halves to the even neighbour. -/
def round53 (n : Nat) : Nat :=
  let shift := n.log2 - 52
  let unit := 1 <<< shift
  let q := n / unit
  let r := n % unit
  if unit < 2 * r ∨ (unit = 2 * r ∧ q % 2 = 1) then (q + 1) * unit else q * unit

/-- Whether `n` times ten to the `exponent` is infinite as a double. -/
def isInfinite (n : Nat) (exponent : Int) : Bool :=
  n != 0 && decide (0 ≤ exponent)
    && (decide (308 < exponent)
      || decide (1 <<< 1024 - 1 <<< 970 ≤ round53 n * round53 (Digits.scale 10 exponent.toNat)))

/-- The natural number that a numeral stands for, if it is one of 64 bits written without
fraction and exponent. -/
def Numeral.natural? (x : Numeral) : Except Fault (Option Nat) :=
  let (n, beyond) := capped 0 x.whole
  if x.fraction.isNone && x.exponent.isNone && beyond == 0 then
    .ok (if x.negative then none else some n)
  else
    let places := x.fraction.getD []
    let (m, left) := capped n places
    let exponent : Int := beyond - (places.length - left : Nat) + x.exponent.getD 0
    if isInfinite m exponent then .error .malformed else .ok none

/-- A number: natural, or of another kind. -/
def number : Reader (Option Nat) := fun cs =>
  match numeral cs with
  | .error fault => .error fault
  | .ok (x, rest) =>
    match x.natural? with
    | .error fault => .error fault
    | .ok n => .ok (n, rest)

/-! ## Reading what was written -/

/-- Whether a text cannot go on with more of a number. -/
def endsNumber : List Char → Bool
  | [] => true
  | c :: _ => (Decimal.value? c).isNone && c != '.' && c != 'e' && c != 'E'

theorem startsWithDigit_of_endsNumber {rest : List Char} (h : endsNumber rest = true) :
    Decimal.startsWithDigit rest = false := by
  cases rest with
  | nil => rfl
  | cons c cs =>
    simp only [endsNumber, Bool.and_eq_true, Option.isNone_iff_eq_none] at h
    simp [Decimal.startsWithDigit, Decimal.isDigit, h.1.1.1]

/-- Digits that 64 bits hold are all taken. -/
theorem capped_eq (m : Nat) (ds : List Nat) (h : ds.foldl (fun n d => 10 * n + d) m < UInt64.size) :
    capped m ds = (ds.foldl (fun n d => 10 * n + d) m, 0) := by
  induction ds generalizing m with
  | nil => rfl
  | cons d ds ih =>
    have hd : 10 * m + d < UInt64.size := Nat.lt_of_le_of_lt (Digits.le_foldl (by decide) _ ds) h
    rw [capped, if_pos hd, ih _ h]
    rfl

theorem wholePart_text (n : Nat) {rest : List Char} (hr : endsNumber rest = true) :
    wholePart (Decimal.text n ++ rest) = .ok (Digits.ofNat 10 n, rest) := by
  have hrun := Decimal.run_text n (startsWithDigit_of_endsNumber hr)
  have hd : digits (Decimal.text n ++ rest) = .ok (Digits.ofNat 10 n, rest) := by
    unfold digits
    rw [hrun]
    split
    · next h => exact absurd (congrArg Prod.fst h) (Digits.ofNat_ne_nil 10 n)
    · next h => exact absurd (congrArg Prod.fst h) (Digits.ofNat_ne_nil 10 n)
    · next h => rw [← h]
  unfold wholePart
  rw [hd]
  split
  · next d ds _ h =>
    obtain ⟨hq, -⟩ := Prod.mk.inj (Except.ok.inj h)
    have hn : n = 0 := Digits.eq_zero_of_ofNat_eq_zero_cons (by decide) hq
    rw [hn, Digits.ofNat_zero 10 (by decide)] at hq
    simp at hq
  · rfl

theorem fractionPart_of_endsNumber {rest : List Char} (hr : endsNumber rest = true) :
    fractionPart rest = .ok (none, rest) := by
  unfold fractionPart
  split
  · simp [endsNumber] at hr
  · rfl

theorem exponentPart_of_endsNumber {rest : List Char} (hr : endsNumber rest = true) :
    exponentPart rest = .ok (none, rest) := by
  cases rest with
  | nil => rfl
  | cons c cs =>
    simp only [endsNumber, Bool.and_eq_true, bne_iff_ne, ne_eq] at hr
    rw [exponentPart, if_neg]
    rintro (h | h)
    · exact hr.1.2 h
    · exact hr.2 h

theorem unsigned_text (negative : Bool) (n : Nat) {rest : List Char}
    (hr : endsNumber rest = true) :
    unsigned negative (Decimal.text n ++ rest) =
      .ok (⟨negative, Digits.ofNat 10 n, none, none⟩, rest) := by
  simp only [unsigned, wholePart_text n hr, fractionPart_of_endsNumber hr,
    exponentPart_of_endsNumber hr]

theorem numeral_text (n : Nat) {rest : List Char} (hr : endsNumber rest = true) :
    numeral (Decimal.text n ++ rest) = .ok (⟨false, Digits.ofNat 10 n, none, none⟩, rest) := by
  have h := unsigned_text false n hr
  unfold numeral
  split
  · next cs hc =>
    rw [hc] at h
    simp [unsigned, wholePart, digits, Decimal.run, Decimal.isDigit, Decimal.value?] at h
  · exact h

/-- A written natural number of 64 bits reads back. -/
theorem number_text {n : Nat} (h : n < UInt64.size) {rest : List Char}
    (hr : endsNumber rest = true) :
    number (Decimal.text n ++ rest) = .ok (some n, rest) := by
  have hv : (Digits.ofNat 10 n).foldl (fun n d => 10 * n + d) 0 = n := Digits.value_ofNat 10 n
  have hc := capped_eq 0 (Digits.ofNat 10 n) (by rw [hv]; exact h)
  rw [hv] at hc
  simp [number, numeral_text n hr, Numeral.natural?, hc]

end SigScan.Json
