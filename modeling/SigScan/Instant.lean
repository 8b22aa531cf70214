/-
SigScan.Instant — points in time.

An instant is a number of whole seconds since the start of the year 1970 and a number of
nanoseconds on top. A leap second has no number of its own: it is kept as the second
before with a thousand million nanoseconds or more, and that is the last one of a minute.

The time between two instants is that between their days and between their times of day.
A leap second is counted where one of the two lies in it and the other one lies later in
the day; of leap seconds between the two nothing is known.

Main statements: nothing has passed since the same instant (`since_self`), what is not to
come at an instant is not to come later on (`since_nonneg_trans`), and what is a day old at
most has seen nothing that is older (`since_le_day`).
-/

namespace SigScan

/-- Nanoseconds in a second. -/
def Instant.nanosPerSecond : Nat := 1000000000

/-- A point in time. -/
structure Instant where
  /-- Whole seconds since the start of the year 1970. -/
  seconds : Int
  /-- Nanoseconds on top, a thousand million or more in a leap second. -/
  nanos : Nat := 0
  /-- A second and the leap second behind it are all that a number of seconds stands for. -/
  nanos_lt : nanos < 2 * Instant.nanosPerSecond := by decide
  /-- A leap second is put in at the end of a minute. -/
  second_eq : Instant.nanosPerSecond ≤ nanos → seconds % 60 = 59 := by decide
deriving DecidableEq, Repr

namespace Instant

/-- Seconds of a day without leap seconds. -/
def secondsPerDay : Nat := 86400

/-- The instant of a clock that knows no leap seconds. -/
def ofClock (seconds : Int) (nanos : Nat) : Instant where
  seconds := seconds
  nanos := nanos % nanosPerSecond
  nanos_lt := by
    simp only [nanosPerSecond]
    omega
  second_eq h := by
    simp only [nanosPerSecond] at h
    omega

/-- The instant of a number of seconds with nanoseconds on top, if there is one. -/
def ofParts? (seconds : Int) (nanos : Nat) : Option Instant :=
  if h : nanos < 2 * nanosPerSecond ∧ (nanosPerSecond ≤ nanos → seconds % 60 = 59) then
    some ⟨seconds, nanos, h.1, h.2⟩
  else none

/-- The whole second of its day. -/
def secondOfDay (t : Instant) : Nat :=
  (t.seconds % secondsPerDay).toNat

/-- Whether an instant lies in a leap second. -/
def inLeapSecond (t : Instant) : Bool :=
  decide (nanosPerSecond ≤ t.nanos)

/-- What a leap second adds to the seconds between two instants: the second that the one of
them lies in which is earlier in the day. -/
def leapBetween (now t : Instant) : Int :=
  if t.secondOfDay < now.secondOfDay then if t.inLeapSecond then 1 else 0
  else if now.secondOfDay < t.secondOfDay then if now.inLeapSecond then -1 else 0
  else 0

/-- Nanoseconds that have passed at `now` since an instant, negative if it is to come. -/
def since (now t : Instant) : Int :=
  (now.seconds - t.seconds + leapBetween now t) * nanosPerSecond + (now.nanos - t.nanos)

theorem ofParts?_self (t : Instant) : ofParts? t.seconds t.nanos = some t :=
  dif_pos ⟨t.nanos_lt, t.second_eq⟩

theorem secondOfDay_lt (t : Instant) : t.secondOfDay < secondsPerDay := by
  rw [secondOfDay, secondsPerDay]
  omega

/-- The numbers of an instant. -/
theorem bounds (t : Instant) :
    t.nanos < 2 * nanosPerSecond ∧ (nanosPerSecond ≤ t.nanos → t.seconds % 60 = 59)
      ∧ (t.secondOfDay : Int) = t.seconds % secondsPerDay := by
  refine ⟨t.nanos_lt, t.second_eq, ?_⟩
  rw [secondOfDay, secondsPerDay]
  omega

/-! ## Ages -/

theorem since_self (t : Instant) : t.since t = 0 := by
  simp [since, leapBetween]

/-- Which of two instants is earlier in the day, and in a leap second. -/
theorem leapBetween_cases (now t : Instant) :
    (leapBetween now t = 1 ∧ t.secondOfDay < now.secondOfDay ∧ nanosPerSecond ≤ t.nanos) ∨
    (leapBetween now t = -1 ∧ now.secondOfDay < t.secondOfDay ∧ nanosPerSecond ≤ now.nanos) ∨
    (leapBetween now t = 0 ∧ (t.secondOfDay < now.secondOfDay → t.nanos < nanosPerSecond)
      ∧ (now.secondOfDay < t.secondOfDay → now.nanos < nanosPerSecond)) := by
  simp only [leapBetween, inLeapSecond, decide_eq_true_eq]
  split
  · split <;> omega
  · split
    · split <;> omega
    · omega

/-- What is not to come at an instant is not to come at a later one. -/
theorem since_nonneg_trans {now t u : Instant} (ht : 0 ≤ now.since t) (hu : 0 ≤ t.since u) :
    0 ≤ now.since u := by
  have hnow := now.bounds
  have ht' := t.bounds
  have hu' := u.bounds
  have hleap := leapBetween_cases now u
  have hleapt := leapBetween_cases now t
  have hleapu := leapBetween_cases t u
  simp only [since, secondsPerDay, nanosPerSecond] at *
  omega

/-- If an instant is at most a day old, so is what came after it. -/
theorem since_le_day {now t u : Instant}
    (hage : now.since u ≤ secondsPerDay * nanosPerSecond) (hu : 0 ≤ t.since u) :
    now.since t ≤ secondsPerDay * nanosPerSecond := by
  have hnow := now.bounds
  have ht' := t.bounds
  have hu' := u.bounds
  have hleap := leapBetween_cases now u
  have hleapt := leapBetween_cases now t
  have hleapu := leapBetween_cases t u
  simp only [since, secondsPerDay, nanosPerSecond] at *
  omega

end Instant

end SigScan
