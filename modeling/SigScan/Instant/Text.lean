/-
SigScan.Instant.Text — instants as dates with a time of day and an offset from UTC.

The written form is that of RFC 3339 in UTC: `2024-06-01T12:30:00Z`, with no, three, six
or nine digits behind the point as needed. A year outside the range of four digits has a
sign. A leap second is written as second 60.

What is read may be looser. Blanks may stand in front of each number and in front of each
mark between the parts of the date and of the time; numbers may have fewer digits, and a
year with a sign may have any number of them. A single `T` or blank parts the date from
the time. The offset is `Z`, `UTC` in any case, or a sign with hours and minutes, between
which colons and blanks do not matter. Instants whose date lies outside the years from
-262143 to 262142, at its own place or in UTC, are not known.

Main statements: the parts of a written form read back (`number_fixed`, `readZone_utc`).
-/
import SigScan.Instant
import SigScan.Instant.Calendar
import SigScan.Text.Blank
import SigScan.Text.Decimal

namespace SigScan.Instant

open SigScan.Text
open SigScan.Calendar

/-- The first year that is known. -/
def firstYear : Int := -262143

/-- The last year that is known. -/
def lastYear : Int := 262142

/-- Whether a year is known. -/
def isKnownYear (year : Int) : Bool :=
  decide (firstYear ≤ year) && decide (year ≤ lastYear)

/-! ## Writing -/

/-- A year in four digits, or with a sign if it has no such form. -/
def yearText (year : Int) : List Char :=
  let n := year.natAbs
  if 0 ≤ year ∧ year ≤ 9999 then Decimal.fixed 4 n
  else
    (if year < 0 then '-' else '+')
      :: (if n < 10000 then Decimal.fixed 4 n else Decimal.text n)

/-- A fraction of a second in no, three, six or nine digits. -/
def fractionText (nanos : Nat) : List Char :=
  if nanos = 0 then []
  else if nanos % 1000000 = 0 then '.' :: Decimal.fixed 3 (nanos / 1000000)
  else if nanos % 1000 = 0 then '.' :: Decimal.fixed 6 (nanos / 1000)
  else '.' :: Decimal.fixed 9 nanos

/-- A date in numbers with hyphens between them. -/
def dateText (d : Date) : List Char :=
  yearText d.year ++ '-' :: Decimal.fixed 2 d.month ++ '-' :: Decimal.fixed 2 d.day

/-- A second of the day in numbers with colons between them, with `extra` seconds in the
last number on top. -/
def clockText (second extra : Nat) : List Char :=
  Decimal.fixed 2 (second / 3600) ++ ':' :: Decimal.fixed 2 (second / 60 % 60)
    ++ ':' :: Decimal.fixed 2 (second % 60 + extra)

/-- The characters of the written form. -/
def chars (t : Instant) : List Char :=
  let second := t.secondOfDay
  let date := dateText (.ofDays (t.seconds / secondsPerDay))
  if t.nanos < nanosPerSecond then
    date ++ 'T' :: clockText second 0 ++ fractionText t.nanos ++ ['Z']
  else
    date ++ 'T' :: clockText second 1 ++ fractionText (t.nanos - nanosPerSecond) ++ ['Z']

/-- The written form of an instant. -/
def text (t : Instant) : String :=
  String.ofList t.chars

/-! ## Reading -/

/-- The number that digits stand for; there must be one digit or more. -/
def ofDigits? : List Nat × List Char → Option (Nat × List Char)
  | ([], _) => none
  | (ds, rest) => some (Digits.value 10 ds, rest)

/-- A number of at most `max` digits behind blanks. -/
def number (max : Nat) (cs : List Char) : Option (Nat × List Char) :=
  ofDigits? (Decimal.upTo max (trimStart cs))

/-- A number of at most two digits behind blanks, within bounds. -/
def numberIn (low high : Nat) (cs : List Char) : Option (Nat × List Char) :=
  match number 2 cs with
  | none => none
  | some (n, rest) => if low ≤ n ∧ n ≤ high then some (n, rest) else none

/-- A mark behind blanks. -/
def readMark (mark : Char) (cs : List Char) : Option (List Char) :=
  match trimStart cs with
  | [] => none
  | c :: rest => if c = mark then some rest else none

/-- A number that is larger than any known year, with and without its sign. -/
def yearLimit : Nat := 1000000

/-- The years behind a sign, taken no further than `yearLimit`. -/
def signedYear (cs : List Char) : Option (Nat × List Char) :=
  match Decimal.run cs with
  | ([], _) => none
  | (ds, rest) => some (Digits.valueUpTo yearLimit 10 ds, rest)

/-- A year behind blanks. -/
def readYear (cs : List Char) : Option (Int × List Char) :=
  match trimStart cs with
  | '-' :: rest => (signedYear rest).map fun (n, rest) => (-(n : Int), rest)
  | '+' :: rest => (signedYear rest).map fun (n, rest) => ((n : Int), rest)
  | rest => (ofDigits? (Decimal.upTo 4 rest)).map fun (n, rest) => ((n : Int), rest)

/-- A date that exists, in a year that is known. -/
def readDate (cs : List Char) : Option (Date × List Char) := do
  let (year, cs) ← readYear cs
  let cs ← readMark '-' cs
  let (month, cs) ← numberIn 1 12 cs
  let cs ← readMark '-' cs
  let (day, cs) ← numberIn 1 31 cs
  let date : Date := ⟨year, month, day⟩
  if isKnownYear year && date.exists then some (date, cs) else none

/-- Nanoseconds behind a point, if there is one. Nine digits count. -/
def readFraction : List Char → Option (Nat × List Char)
  | '.' :: cs =>
    match Decimal.run cs with
    | ([], _) => none
    | (ds, rest) =>
      let kept := ds.take 9
      some (Digits.value 10 kept * Digits.scale 10 (9 - kept.length), rest)
  | cs => some (0, cs)

/-- The time of day: its whole second, and its nanoseconds. The second 60 is the one
before with more nanoseconds. -/
def readClock (cs : List Char) : Option ((Nat × Nat) × List Char) := do
  let (hour, cs) ← numberIn 0 23 cs
  let cs ← readMark ':' cs
  let (minute, cs) ← numberIn 0 59 cs
  let cs ← readMark ':' cs
  let (second, cs) ← numberIn 0 60 cs
  let (nanos, cs) ← readFraction cs
  let start := hour * 3600 + minute * 60
  if second = 60 then some ((start + 59, nanos + nanosPerSecond), cs)
  else some ((start + second, nanos), cs)

/-- Two digits that stand for a number up to `high`. -/
def twoDigits (high : Nat) : List Char → Option (Nat × List Char)
  | a :: b :: rest =>
    match Decimal.value? a, Decimal.value? b with
    | some tens, some ones =>
      let n := 10 * tens + ones
      if n ≤ high then some (n, rest) else none
    | _, _ => none
  | _ => none

/-- Hours and minutes of an offset in seconds, which must be less than a day. -/
def readShift (cs : List Char) : Option (Nat × List Char) := do
  let (hours, cs) ← twoDigits 99 cs
  let (minutes, cs) ← twoDigits 59 (cs.dropWhile fun c => c == ':' || isBlank c)
  let seconds := hours * 3600 + minutes * 60
  if seconds < secondsPerDay then some (seconds, cs) else none

/-- Whether a letter is the given capital one, or its small form. -/
def isLetter (capital c : Char) : Bool :=
  c == capital || c.toNat == capital.toNat + 32

/-- How far the clock is ahead of UTC, in seconds. -/
def readZone (cs : List Char) : Option (Int × List Char) :=
  match trimStart cs with
  | [] => none
  | c :: rest =>
    if isLetter 'Z' c then some (0, rest)
    else if c = '+' then (readShift rest).map fun (n, rest) => ((n : Int), rest)
    else if c = '-' ∨ c = '\u2212' then (readShift rest).map fun (n, rest) => (-(n : Int), rest)
    else
      match rest with
      | d :: e :: rest =>
        if isLetter 'U' c && isLetter 'T' d && isLetter 'C' e then some (0, rest) else none
      | _ => none

/-- Whether a character parts the date from the time. -/
def partsTime (c : Char) : Bool :=
  c == 'T' || c == 't' || c == ' '

/-- The instant of a time of day on a date with an offset, if its date in UTC is known. -/
def ofLocal? (date : Date) (second nanos : Nat) (ahead : Int) : Option Instant :=
  let seconds := date.toDays * secondsPerDay + second - ahead
  if isKnownYear (Date.ofDays (seconds / secondsPerDay)).year then ofParts? seconds nanos
  else none

/-- Reads an instant; nothing but blanks may be left behind it. -/
def ofChars? (cs : List Char) : Option Instant :=
  match readDate cs with
  | none => none
  | some (_, []) => none
  | some (date, c :: cs) =>
    if partsTime c then
      match readClock cs with
      | none => none
      | some ((second, nanos), cs) =>
        match readZone cs with
        | none => none
        | some (ahead, cs) =>
          if (trimStart cs).isEmpty then ofLocal? date second nanos ahead else none
    else none

/-- Reads an instant. -/
def ofText? (s : String) : Option Instant :=
  ofChars? s.toList

/-! ## Reading what was written -/

theorem ofDigits?_of_ne_nil {ds : List Nat} (h : ds ≠ []) (rest : List Char) :
    ofDigits? (ds, rest) = some (Digits.value 10 ds, rest) := by
  cases ds with
  | nil => exact absurd rfl h
  | cons d ds => rfl

theorem isBlank_digit {d : Nat} (h : d < 10) : isBlank (Decimal.digit d) = false := by
  revert d; decide

theorem trimStart_cons {c : Char} (h : isBlank c = false) (cs : List Char) :
    trimStart (c :: cs) = c :: cs := by
  simp [trimStart, h]

/-- Digits are not blank, so nothing is taken off in front of them. -/
theorem trimStart_fixed {width : Nat} (hw : 0 < width) (n : Nat) (rest : List Char) :
    trimStart (Decimal.fixed width n ++ rest) = Decimal.fixed width n ++ rest := by
  obtain ⟨w, rfl⟩ := Nat.exists_eq_succ_of_ne_zero (Nat.ne_of_gt hw)
  obtain ⟨d, ds, hd, ht⟩ := Decimal.fixed_succ_eq_cons w n
  rw [ht, List.cons_append, trimStart_cons (isBlank_digit hd)]

/-- A number of fixed width reads back, whatever follows it. -/
theorem number_fixed {width : Nat} (hw : 0 < width) (n : Nat) (rest : List Char) :
    number width (Decimal.fixed width n ++ rest) = some (n % Digits.scale 10 width, rest) := by
  rw [number, trimStart_fixed hw, Decimal.upTo_fixed, ofDigits?_of_ne_nil, Digits.value_fixed]
  intro h
  have := Digits.length_fixed 10 width n
  rw [h] at this
  exact absurd this (by simp; omega)

theorem readMark_cons {mark : Char} (h : isBlank mark = false) (rest : List Char) :
    readMark mark (mark :: rest) = some rest := by
  simp [readMark, trimStart_cons h]

theorem readZone_utc (rest : List Char) : readZone ('Z' :: rest) = some (0, rest) := by
  rw [readZone, trimStart_cons (by decide)]
  rfl

end SigScan.Instant
