/-
SigScan.Instant.Calendar — days and dates of the Gregorian calendar.

Days are counted from the first of January 1970; years run on without a gap through zero
to negative numbers. The days before a year are counted by its leap years, and the year
of a day is found by dividing by the mean length of a year, which misses by one at most.
Inside a year the months are taken off one after another.

Main statements: the year that is found holds the day (`yearOf_spec`), a day has a date
that exists (`exists_ofDays`), and that date has the same day (`toDays_ofDays`).
-/

namespace SigScan.Calendar

/-! ## Years -/

/-- Every fourth year is a leap year, but of the full centuries only every fourth. -/
def isLeap (year : Int) : Bool :=
  year % 4 == 0 && (year % 100 != 0 || year % 400 == 0)

/-- Number of days of a year. -/
def yearLength (year : Int) : Int :=
  if isLeap year then 366 else 365

/-- Days from the start of the year zero to the start of a year. -/
def daysBeforeYear (year : Int) : Int :=
  365 * year + (year + 3) / 4 - (year + 99) / 100 + (year + 399) / 400

/-- Days from the start of the year zero to the start of 1970. -/
def daysBefore1970 : Int := 719528

/-- The year of a day that is counted from the start of the year zero. -/
def yearOf (day : Int) : Int :=
  let guess := 400 * day / 146097
  if day < daysBeforeYear guess then guess - 1
  else if daysBeforeYear (guess + 1) ≤ day then guess + 1
  else guess

theorem daysBeforeYear_succ (year : Int) :
    daysBeforeYear (year + 1) = daysBeforeYear year + yearLength year := by
  simp only [daysBeforeYear, yearLength, isLeap, Bool.and_eq_true, Bool.or_eq_true, beq_iff_eq,
    bne_iff_ne]
  split <;> omega

/-- A day lies in the year that is found for it. -/
theorem yearOf_spec (day : Int) :
    daysBeforeYear (yearOf day) ≤ day ∧ day < daysBeforeYear (yearOf day + 1) := by
  by_cases h1 : day < daysBeforeYear (400 * day / 146097)
  · rw [show yearOf day = 400 * day / 146097 - 1 by simp only [yearOf, if_pos h1],
      Int.sub_add_cancel]
    refine ⟨?_, h1⟩
    simp only [daysBeforeYear]
    omega
  · by_cases h2 : daysBeforeYear (400 * day / 146097 + 1) ≤ day
    · simp only [yearOf, if_neg h1, if_pos h2]
      simp only [daysBeforeYear] at h2 ⊢
      omega
    · simp only [yearOf, if_neg h1, if_neg h2]
      omega

/-! ## Months -/

/-- The lengths of the months of a year. -/
def monthLengths (year : Int) : List Nat :=
  [31, if isLeap year then 29 else 28, 31, 30, 31, 30, 31, 31, 30, 31, 30, 31]

/-- Sum of lengths. -/
def total : List Nat → Nat
  | [] => 0
  | len :: lens => len + total lens

/-- The place of a day among months of the given lengths: the number of months before it
and the days of its own month before it. -/
def splitDay : List Nat → Nat → Nat × Nat
  | [], n => (0, n)
  | len :: lens, n =>
    if n < len then (0, n)
    else
      let (months, days) := splitDay lens (n - len)
      (months + 1, days)

theorem splitDay_spec {lens : List Nat} {n : Nat} (h : n < total lens) :
    (splitDay lens n).2 < lens.getD (splitDay lens n).1 0
      ∧ total (lens.take (splitDay lens n).1) + (splitDay lens n).2 = n := by
  induction lens generalizing n with
  | nil => exact absurd h (Nat.not_lt_zero n)
  | cons len lens ih =>
    rw [total] at h
    by_cases hn : n < len
    · simp [splitDay, hn, total]
    · obtain ⟨h1, h2⟩ := ih (n := n - len) (by omega)
      simp only [splitDay, if_neg hn]
      refine ⟨by simpa using h1, ?_⟩
      rw [List.take_succ_cons, total]
      omega

theorem total_monthLengths (year : Int) : (total (monthLengths year) : Nat) = yearLength year := by
  unfold monthLengths yearLength
  split <;> decide

/-! ## Dates -/

/-- A day by year, month and place in the month, both counted from one. -/
structure Date where
  year : Int
  month : Nat
  day : Nat
deriving DecidableEq, Repr

/-- Whether there is such a day. -/
def Date.exists (d : Date) : Bool :=
  decide (1 ≤ d.month) && decide (d.month ≤ 12) && decide (1 ≤ d.day)
    && decide (d.day ≤ (monthLengths d.year).getD (d.month - 1) 0)

/-- Days of its year that lie before a date. -/
def Date.dayOfYear (d : Date) : Nat :=
  total ((monthLengths d.year).take (d.month - 1)) + (d.day - 1)

/-- The date of a year that has `n` days of the year before it. -/
def Date.inYear (year : Int) (n : Nat) : Date :=
  let place := splitDay (monthLengths year) n
  ⟨year, place.1 + 1, place.2 + 1⟩

/-- Days from the first of January 1970 to a date. -/
def Date.toDays (d : Date) : Int :=
  daysBeforeYear d.year - daysBefore1970 + d.dayOfYear

/-- The date of a day counted from the first of January 1970. -/
def Date.ofDays (n : Int) : Date :=
  let day := n + daysBefore1970
  .inYear (yearOf day) (day - daysBeforeYear (yearOf day)).toNat

theorem dayOfYear_inYear {year : Int} {n : Nat} (h : n < total (monthLengths year)) :
    (Date.inYear year n).dayOfYear = n :=
  (splitDay_spec h).2

theorem exists_inYear {year : Int} {n : Nat} (h : n < total (monthLengths year)) :
    (Date.inYear year n).exists = true := by
  have hd := (splitDay_spec h).1
  have hl : (monthLengths year).length = 12 := rfl
  have hm : (splitDay (monthLengths year) n).1 < 12 := by
    apply Nat.lt_of_not_le
    intro hge
    rw [List.getD_eq_getElem?_getD, List.getElem?_eq_none (by rw [hl]; exact hge)] at hd
    exact absurd hd (Nat.not_lt_zero _)
  simp only [Date.exists, Bool.and_eq_true, decide_eq_true_iff]
  exact ⟨⟨⟨Nat.succ_pos _, hm⟩, Nat.succ_pos _⟩, hd⟩

/-- The place of a day in its year lies among the months of that year. -/
theorem toNat_lt_total_monthLengths (day : Int) :
    (day - daysBeforeYear (yearOf day)).toNat < total (monthLengths (yearOf day)) := by
  obtain ⟨h1, h2⟩ := yearOf_spec day
  rw [daysBeforeYear_succ, ← total_monthLengths] at h2
  omega

/-- The date that is found for a day has this day. -/
theorem toDays_ofDays (n : Int) : (Date.ofDays n).toDays = n := by
  have hy : (Date.ofDays n).year = yearOf (n + daysBefore1970) := rfl
  have hd := dayOfYear_inYear (toNat_lt_total_monthLengths (n + daysBefore1970))
  have h1 := (yearOf_spec (n + daysBefore1970)).1
  rw [Date.toDays, hy, Date.ofDays, hd]
  omega

/-- The date that is found for a day exists. -/
theorem exists_ofDays (n : Int) : (Date.ofDays n).exists = true :=
  exists_inYear (toNat_lt_total_monthLengths (n + daysBefore1970))

end SigScan.Calendar
