/-
SigScan.Toml.Moment — dates, times of day and both together.

A date must exist. A time has hours, minutes and seconds of two digits, seconds up to 60,
and a fraction or not. Behind a date and a `T` or a space may stand a time, and behind it
an offset from UTC. No setting is of this kind, so all that matters is where it ends.
-/
import SigScan.Instant.Calendar
import SigScan.Toml.Reader

namespace SigScan.Toml

open SigScan.Text

/-- A number of a fixed number of digits. -/
def fixedNumber (width : Nat) : Reader Nat := fun cs =>
  let (ds, rest) := Decimal.upTo width cs
  if ds.length = width then some (Digits.value 10 ds, rest) else none

/-- What is left behind two digits that stand for a number up to `high`. -/
def skipTwo (high : Nat) (cs : List Char) : Option (List Char) :=
  match fixedNumber 2 cs with
  | none => none
  | some (n, rest) => if n ≤ high then some rest else none

/-- What is left behind a date. -/
def skipDate (cs : List Char) : Option (List Char) := do
  let (year, cs) ← fixedNumber 4 cs
  let cs ← skipChar '-' cs
  let (month, cs) ← fixedNumber 2 cs
  let cs ← skipChar '-' cs
  let (day, cs) ← fixedNumber 2 cs
  let date : Calendar.Date := ⟨year, month, day⟩
  if date.exists then some cs else none

/-- What is left behind a fraction of a second, if there is one. -/
def skipFraction : List Char → Option (List Char)
  | '.' :: cs =>
    match Decimal.run cs with
    | ([], _) => none
    | (_, rest) => some rest
  | cs => some cs

/-- What is left behind a time of day. -/
def skipTime (cs : List Char) : Option (List Char) := do
  let cs ← skipTwo 23 cs
  let cs ← skipChar ':' cs
  let cs ← skipTwo 59 cs
  let cs ← skipChar ':' cs
  let cs ← skipTwo 60 cs
  skipFraction cs

/-- What is left behind an offset from UTC. -/
def skipOffset : List Char → Option (List Char)
  | [] => none
  | c :: cs =>
    if c = 'Z' ∨ c = 'z' then some cs
    else if c = '+' ∨ c = '-' then do
      let cs ← skipTwo 23 cs
      let cs ← skipChar ':' cs
      skipTwo 59 cs
    else none

/-- What is left behind the time of a date and its offset, if there are any. -/
def skipTimeOfDate : List Char → List Char
  | [] => []
  | c :: cs =>
    if c = 'T' ∨ c = 't' ∨ c = ' ' then
      match skipTime cs with
      | none => c :: cs
      | some rest => (skipOffset rest).getD rest
    else c :: cs

/-- What is left behind a date, a time or both. -/
def skipMoment (cs : List Char) : Option (List Char) :=
  match skipDate cs with
  | some rest => some (skipTimeOfDate rest)
  | none => skipTime cs

end SigScan.Toml
