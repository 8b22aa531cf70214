/-
SigScan.Toml.Number — integers and floating-point numbers.

Underscores may stand between digits. An integer is decimal with a sign or not and
without a needless zero in front, or hexadecimal, octal or binary without a sign; it must
fit 64 bits with a sign. Of a floating-point number only its size matters: one above the
range of doubles is refused, one below it counts as minus infinity. Its exponent is read
only as far as five digits or so, so that a long row of zeros may outweigh it.

Main statement: an integer that is read fits (`integerOf_bounds`).
-/
import SigScan.Toml.Reader

namespace SigScan.Toml

open SigScan.Text

/-! ## Digits -/

/-- The digits of a number behind those of `done`, which are given backwards, each with an
underscore in front or not. -/
def moreDigits (value? : Char → Option Nat) (done : List Nat) :
    List Char → List Nat × List Char
  | [] => (done.reverse, [])
  | '_' :: c :: rest =>
    match value? c with
    | none => (done.reverse, '_' :: c :: rest)
    | some n => moreDigits value? (n :: done) rest
  | c :: rest =>
    match value? c with
    | none => (done.reverse, c :: rest)
    | some n => moreDigits value? (n :: done) rest

/-- One digit or more. -/
def digits (value? : Char → Option Nat) : Reader (List Nat)
  | [] => none
  | c :: rest =>
    match value? c with
    | none => none
    | some n => some (moreDigits value? [n] rest)

/-- Digits of which a zero is followed by no other. -/
def wholeDigits : Reader (List Nat)
  | '0' :: rest => some ([0], rest)
  | cs => digits Decimal.value? cs

/-- The value of a digit below a base. -/
def digitBelow (base : Nat) (c : Char) : Option Nat :=
  match Hex.value? c with
  | none => none
  | some n => if n < base then some n else none

/-- A sign, if there is one: whether it is a minus. -/
def sign : List Char → Bool × List Char
  | '+' :: rest => (false, rest)
  | '-' :: rest => (true, rest)
  | cs => (false, cs)

/-! ## Integers -/

/-- The least number that is too large for an integer of either sign. -/
def integerLimit : Nat := 1 <<< 63 + 1

/-- An integer of 64 bits with a sign. -/
def integerOf (negative : Bool) (n : Nat) : Option Int :=
  if negative then if n ≤ 1 <<< 63 then some (-(n : Int)) else none
  else if n < 1 <<< 63 then some n else none

/-- An integer. -/
def integer : Reader Int := fun cs =>
  let based (base : Nat) (rest : List Char) : Option (Int × List Char) :=
    match digits (digitBelow base) rest with
    | none => none
    | some (ds, rest) =>
      (integerOf false (Digits.valueUpTo integerLimit base ds)).map fun n => (n, rest)
  match cs with
  | '0' :: 'x' :: rest => based 16 rest
  | '0' :: 'o' :: rest => based 8 rest
  | '0' :: 'b' :: rest => based 2 rest
  | cs =>
    let (negative, rest) := sign cs
    match wholeDigits rest with
    | none => none
    | some (ds, rest) =>
      (integerOf negative (Digits.valueUpTo integerLimit 10 ds)).map fun n => (n, rest)

/-! ## Floating-point numbers -/

/-- An exponent that has reached this size is read no further: digits behind it may stand
there, but do not count. -/
def exponentLimit : Nat := 65536

/-- The exponent behind its letter. -/
def exponent : Reader Int
  | [] => none
  | c :: rest =>
    if c = 'e' ∨ c = 'E' then
      let (negative, rest) := sign rest
      match digits Decimal.value? rest with
      | none => none
      | some (ds, rest) =>
        let n : Int := Digits.valueUntil exponentLimit 10 ds
        some (if negative then -n else n, rest)
    else none

/-- The digits behind a point. -/
def fraction : Reader (List Nat)
  | '.' :: rest => digits Decimal.value? rest
  | _ => none

/-- The least number that has infinity as its nearest double. -/
def infiniteFrom : Nat := 1 <<< 1024 - 1 <<< 970

/-- Number of decimal places of `infiniteFrom`. -/
def infinitePlaces : Nat := 309

/-- Whether digits times ten to the `exponent` have infinity as their nearest double. Their
number of decimal places tells, unless it is that of the least such number; then the digits
in front of the point do. -/
def isInfinite (ds : List Nat) (exponent : Int) : Bool :=
  let ds := ds.dropWhile (· == 0)
  let places : Int := ds.length + exponent
  if ds.isEmpty ∨ places < infinitePlaces then false
  else if infinitePlaces < places then true
  else
    let front := ds.take infinitePlaces
    decide (infiniteFrom ≤ Digits.value 10 front * Digits.scale 10 (infinitePlaces - front.length))

/-- What is left behind a floating-point number, unless it is too large. -/
def skipFloat (cs : List Char) : Option (List Char) :=
  let (negative, rest) := sign cs
  let ending (whole places : List Nat) (n : Int) (rest : List Char) : Option (List Char) :=
    if !negative && isInfinite (whole ++ places) (n - places.length) then none
    else some rest
  match wholeDigits rest with
  | none => (skipWord ['i', 'n', 'f'] rest).or (skipWord ['n', 'a', 'n'] rest)
  | some (whole, rest) =>
    match exponent rest with
    | some (n, rest) => ending whole [] n rest
    | none =>
      match fraction rest with
      | none => none
      | some (places, rest) =>
        match exponent rest with
        | some (n, rest) => ending whole places n rest
        | none => ending whole places 0 rest

/-- An integer that is read has 64 bits with a sign. -/
theorem integerOf_bounds {negative : Bool} {m : Nat} {n : Int} (h : integerOf negative m = some n) :
    Int64.minValue.toInt ≤ n ∧ n ≤ Int64.maxValue.toInt := by
  rw [show Int64.minValue.toInt = -(1 <<< 63 : Nat) from rfl,
    show Int64.maxValue.toInt = (1 <<< 63 : Nat) - 1 from rfl]
  unfold integerOf at h
  split at h
  · split at h
    · obtain rfl := Option.some.inj h
      omega
    · simp at h
  · split at h
    · obtain rfl := Option.some.inj h
      omega
    · simp at h

end SigScan.Toml
