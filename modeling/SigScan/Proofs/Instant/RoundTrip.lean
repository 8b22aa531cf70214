/-
SigScan.Proofs.Instant.RoundTrip — the written form of an instant is read back.

The parts of the written form are numbers of fixed width with marks between them. Each is
read back where its number fits the width and the bounds that the reader asks for: the date,
since the date of a day exists (`readDate_dateText`), the clock (`readClock_clockText`) and
the fraction in as many digits as it needs (`readFraction_fractionText`). Day and second of
the day together are the seconds again, so an instant of the years 0 to 9999 comes back as
it was written (`ofText?_text`).
-/
import SigScan.Instant.Text

namespace SigScan

open SigScan.Text
open SigScan.Calendar

/-! ## Dates -/

namespace Calendar

theorem getD_monthLengths_le (year : Int) (month : Nat) :
    (monthLengths year).getD month 0 ≤ 31 := by
  have hall : ∀ len ∈ monthLengths year, len ≤ 31 := by
    unfold monthLengths
    split <;> decide
  rw [List.getD_eq_getElem?_getD]
  cases hlen : (monthLengths year)[month]? with
  | none => simp
  | some len => exact hall len (List.mem_of_getElem? hlen)

/-- The numbers of a date that exists. -/
theorem Date.bounds {d : Date} (h : d.exists = true) :
    1 ≤ d.month ∧ d.month ≤ 12 ∧ 1 ≤ d.day ∧ d.day ≤ 31 := by
  have hlen := getD_monthLengths_le d.year (d.month - 1)
  simp only [Date.exists, Bool.and_eq_true, decide_eq_true_eq] at h
  obtain ⟨⟨⟨hlow, hhigh⟩, hfirst⟩, hlast⟩ := h
  exact ⟨hlow, hhigh, hfirst, Nat.le_trans hlast hlen⟩

end Calendar

namespace Instant

/-- A number of two digits within bounds. -/
theorem numberIn_fixed {low high n : Nat} (hlow : low ≤ n) (hhigh : n ≤ high) (hn : n < 100)
    (rest : List Char) : numberIn low high (Decimal.fixed 2 n ++ rest) = some (n, rest) := by
  have hmod : n % Digits.scale 10 2 = n := Nat.mod_eq_of_lt hn
  rw [numberIn, number_fixed (by decide), hmod]
  exact if_pos ⟨hlow, hhigh⟩

theorem isKnownYear_of_four {year : Int} (hlow : 0 ≤ year) (hhigh : year ≤ 9999) :
    isKnownYear year = true := by
  have hfirst : firstYear ≤ year := Int.le_trans (by decide) hlow
  have hlast : year ≤ lastYear := Int.le_trans hhigh (by decide)
  rw [isKnownYear, decide_eq_true hfirst, decide_eq_true hlast, Bool.and_true]

/-- A year of four digits opens with no sign. -/
theorem readYear_yearText {year : Int} (hlow : 0 ≤ year) (hhigh : year ≤ 9999)
    (rest : List Char) : readYear (yearText year ++ rest) = some (year, rest) := by
  have htext : yearText year = Decimal.fixed 4 year.natAbs := if_pos ⟨hlow, hhigh⟩
  have hmod : year.natAbs % Digits.scale 10 4 = year.natAbs :=
    Nat.mod_eq_of_lt (show year.natAbs < 10000 by omega)
  have hnumber : number 4 (Decimal.fixed 4 year.natAbs ++ rest) = some (year.natAbs, rest) := by
    rw [number_fixed (by decide), hmod]
  obtain ⟨d, ds, hd, ht⟩ := Decimal.fixed_succ_eq_cons 3 year.natAbs
  have hminus : ∀ d, d < 10 → Decimal.digit d ≠ '-' := by decide
  have hplus : ∀ d, d < 10 → Decimal.digit d ≠ '+' := by decide
  rw [number, trimStart_fixed (by decide)] at hnumber
  rw [htext, readYear, trimStart_fixed (by decide)]
  split
  · next heq =>
    rw [ht] at heq
    exact absurd (List.cons.inj heq).1 (hminus d hd)
  · next heq =>
    rw [ht] at heq
    exact absurd (List.cons.inj heq).1 (hplus d hd)
  · simp only [hnumber, Option.map_some, Int.natAbs_of_nonneg hlow]

/-- A date of those years is read back. -/
theorem readDate_dateText {d : Date} (hlow : 0 ≤ d.year) (hhigh : d.year ≤ 9999)
    (hexists : d.exists = true) (rest : List Char) :
    readDate (dateText d ++ rest) = some (d, rest) := by
  obtain ⟨hmonth, hmonth', hday, hday'⟩ := Date.bounds hexists
  have hhyphen : isBlank '-' = false := by decide
  have hknown : isKnownYear d.year = true := isKnownYear_of_four hlow hhigh
  simp only [readDate, dateText, List.append_assoc, List.cons_append, readYear_yearText hlow hhigh,
    readMark_cons hhyphen, numberIn_fixed hmonth hmonth' (by omega),
    numberIn_fixed hday hday' (by omega), bind, Option.bind, hknown, hexists, Bool.and_true,
    if_true]

/-! ## Times of day -/

theorem readFraction_fixed {width n : Nat} (hpos : 0 < width) (hwidth : width ≤ 9)
    (hn : n < Digits.scale 10 width) {rest : List Char}
    (hrest : Decimal.startsWithDigit rest = false) :
    readFraction ('.' :: (Decimal.fixed width n ++ rest)) =
      some (n * Digits.scale 10 (9 - width), rest) := by
  have hlen := Digits.length_fixed 10 width n
  have htake : (Digits.fixed 10 width n).take 9 = Digits.fixed 10 width n :=
    List.take_of_length_le (by omega)
  have hvalue := Digits.value_fixed 10 width n
  rw [Nat.mod_eq_of_lt hn] at hvalue
  rw [readFraction, Decimal.run_fixed width n hrest]
  split
  · next h =>
    rw [Prod.mk.injEq] at h
    rw [h.1] at hlen
    exact absurd hlen (by simp; omega)
  · next ds rest' h =>
    obtain ⟨rfl, rfl⟩ := Prod.mk.inj h
    simp only [htake, hvalue, hlen]

/-- A fraction is read back from as many digits as it has. -/
theorem readFraction_fractionText {nanos : Nat} (h : nanos < nanosPerSecond) :
    readFraction (fractionText nanos ++ ['Z']) = some (nanos, ['Z']) := by
  rw [nanosPerSecond] at h
  have hrest : Decimal.startsWithDigit ['Z'] = false := by decide
  -- Digits that were left out are zeros: the scale of what was read puts them back.
  unfold fractionText
  split
  · next hzero =>
    subst hzero
    rfl
  split
  · next hmillis =>
    rw [List.cons_append, readFraction_fixed (by decide) (by decide)
      (show nanos / 1000000 < 1000 by omega) hrest]
    have hscale : Digits.scale 10 (9 - 3) = 1000000 := rfl
    rw [hscale, Nat.div_mul_cancel (Nat.dvd_of_mod_eq_zero hmillis)]
  split
  · next hmicros =>
    rw [List.cons_append, readFraction_fixed (by decide) (by decide)
      (show nanos / 1000 < 1000000 by omega) hrest]
    have hscale : Digits.scale 10 (9 - 6) = 1000 := rfl
    rw [hscale, Nat.div_mul_cancel (Nat.dvd_of_mod_eq_zero hmicros)]
  · rw [List.cons_append, readFraction_fixed (by decide) (by decide)
      (show nanos < 1000000000 by omega) hrest]
    exact congrArg (fun n => some (n, ['Z'])) (Nat.mul_one nanos)

/-- A second of the day is read back with the fraction behind it. -/
theorem readClock_clockText {second nanos : Nat} (hsecond : second < secondsPerDay)
    (hnanos : nanos < nanosPerSecond) :
    readClock (clockText second 0 ++ (fractionText nanos ++ ['Z'])) =
      some ((second, nanos), ['Z']) := by
  rw [secondsPerDay] at hsecond
  have hcolon : isBlank ':' = false := by decide
  have hhour : second / 3600 ≤ 23 := by omega
  have hminute : second / 60 % 60 ≤ 59 := by omega
  have hlast : second % 60 ≤ 60 := by omega
  have hne : second % 60 ≠ 60 := by omega
  have hsum : second / 3600 * 3600 + second / 60 % 60 * 60 + second % 60 = second := by omega
  simp only [readClock, clockText, List.append_assoc, List.cons_append, Nat.add_zero,
    numberIn_fixed (Nat.zero_le _) hhour (by omega), readMark_cons hcolon,
    numberIn_fixed (Nat.zero_le _) hminute (by omega),
    numberIn_fixed (Nat.zero_le _) hlast (by omega), readFraction_fractionText hnanos, bind,
    Option.bind, if_neg hne, hsum]

/-! ## Instants -/

/-- The date of an instant in UTC. -/
def date (t : Instant) : Date :=
  .ofDays (t.seconds / secondsPerDay)

/-- The day of an instant and the second of its day are its seconds. -/
theorem ofLocal?_date {t : Instant} (hknown : isKnownYear t.date.year = true) :
    ofLocal? t.date t.secondOfDay t.nanos 0 = some t := by
  have hseconds : t.date.toDays * secondsPerDay + t.secondOfDay - 0 = t.seconds := by
    rw [date, toDays_ofDays, secondOfDay, secondsPerDay]
    omega
  rw [ofLocal?, hseconds, ← ofParts?_self t]
  exact if_pos hknown

/-- An instant of the years 0 to 9999 that is in no leap second is read back. -/
theorem ofText?_text {t : Instant} (hlow : 0 ≤ t.date.year) (hhigh : t.date.year ≤ 9999)
    (hnanos : t.nanos < nanosPerSecond) : ofText? t.text = some t := by
  have hchars : t.chars = dateText t.date ++
      ('T' :: (clockText t.secondOfDay 0 ++ (fractionText t.nanos ++ ['Z']))) := by
    rw [chars, if_pos hnanos]
    simp only [List.append_assoc, List.cons_append]
    rfl
  have hdate := readDate_dateText hlow hhigh (exists_ofDays _)
    ('T' :: (clockText t.secondOfDay 0 ++ (fractionText t.nanos ++ ['Z'])))
  have hknown : isKnownYear t.date.year = true := isKnownYear_of_four hlow hhigh
  have hparts : partsTime 'T' = true := rfl
  have hend : (trimStart []).isEmpty = true := rfl
  rw [ofText?, text, String.toList_ofList, hchars, ofChars?, hdate]
  simp only [hparts, if_true, readClock_clockText t.secondOfDay_lt hnanos, readZone_utc, hend,
    ofLocal?_date hknown]

end Instant

end SigScan
