import Mathlib.Algebra.Order.Ring.Nat

/-!
# The Gregorian calendar

The calendar is given by the rule that names the day after a given one; a day far
from the first is reached by that rule alone. Counting the days before a year and
before a month gives every date a number, the rule adds one to it, and different
dates have different numbers. A computation of a date is therefore right as soon
as its result is a date and has the right number.
-/

namespace Gregorian

/-- Every fourth year is a leap year, except the centuries that are not divisible by
four hundred. -/
def Leap (year : Nat) : Prop := year % 4 = 0 ∧ (year % 100 ≠ 0 ∨ year % 400 = 0)
deriving Decidable

/-- The length of a month, counted from one. -/
def daysInMonth (year : Nat) : Nat → Nat
  | 2 => if Leap year then 29 else 28
  | 4 | 6 | 9 | 11 => 30
  | _ => 31

/-- A date, valid or not. -/
structure Date where
  year : Nat
  month : Nat
  day : Nat
deriving DecidableEq, Repr

/-- The dates that the calendar has. -/
structure Date.Valid (date : Date) : Prop where
  year : 0 < date.year
  month : 0 < date.month
  december : date.month ≤ 12
  day : 0 < date.day
  last : date.day ≤ daysInMonth date.year date.month

/-- The day after a date. -/
def Date.next (date : Date) : Date :=
  if date.day < daysInMonth date.year date.month then ⟨date.year, date.month, date.day + 1⟩
  else if date.month < 12 then ⟨date.year, date.month + 1, 1⟩
  else ⟨date.year + 1, 1, 1⟩

/-- The date that is a number of days later. -/
def Date.after (date : Date) (days : Nat) : Date := Date.next^[days] date

/-- The leap years from the first year on that are before the given one. -/
def leapsBefore (year : Nat) : Nat := (year - 1) / 4 - (year - 1) / 100 + (year - 1) / 400

/-- The days of the years before the given one. -/
def daysBeforeYear (year : Nat) : Nat := 365 * (year - 1) + leapsBefore year

/-- The days of the months of a year that are before the given one. -/
def daysBeforeMonth (year : Nat) : Nat → Nat
  | 0 => 0
  | 1 => 0
  | month + 2 => daysBeforeMonth year (month + 1) + daysInMonth year (month + 1)

/-- The number of a date, counted from the first day of the first year. -/
def Date.number (date : Date) : Nat :=
  daysBeforeYear date.year + daysBeforeMonth date.year date.month + date.day

theorem daysInMonth_pos (year month : Nat) : 0 < daysInMonth year month := by
  unfold daysInMonth
  split <;> try omega
  split <;> omega

theorem leapsBefore_succ (year : Nat) (pos : 0 < year) :
    leapsBefore (year + 1) = leapsBefore year + if Leap year then 1 else 0 := by
  obtain ⟨before, rfl⟩ : ∃ before, year = before + 1 := ⟨year - 1, by omega⟩
  unfold leapsBefore Leap
  simp only [ne_eq, ← Nat.dvd_iff_mod_eq_zero]
  by_cases four : 4 ∣ before + 1 <;> by_cases hundred : 100 ∣ before + 1 <;>
    by_cases all : 400 ∣ before + 1 <;> simp only [four, hundred, all, true_and, false_and, not_true,
      not_false_iff, or_true, or_false, if_true, if_false] <;> omega

variable {later : Nat}

theorem leapsBefore_mono {year : Nat} (pos : 0 < year) (ordered : year ≤ later) :
    leapsBefore year ≤ leapsBefore later := by
  induction ordered with
  | refl => exact Nat.le_refl _
  | @step later ordered ih =>
    have following : leapsBefore (later + 1) = _ :=
      leapsBefore_succ later (Nat.lt_of_lt_of_le pos ordered)
    exact Nat.le_trans ih (following ▸ Nat.le_add_right _ _)

theorem daysBeforeYear_succ (year : Nat) (pos : 0 < year) :
    daysBeforeYear (year + 1) = daysBeforeYear year + 365 + if Leap year then 1 else 0 := by
  have leaps := leapsBefore_succ year pos
  unfold daysBeforeYear
  omega

theorem daysBeforeMonth_succ (year month : Nat) (pos : 0 < month) :
    daysBeforeMonth year (month + 1) = daysBeforeMonth year month + daysInMonth year month := by
  cases month with
  | zero => omega
  | succ month => rfl

/-- The twelve months make up the year. -/
theorem daysBeforeMonth_thirteen (year : Nat) :
    daysBeforeMonth year 13 = 365 + if Leap year then 1 else 0 := by
  by_cases leap : Leap year <;> simp [daysBeforeMonth, daysInMonth, leap]

theorem daysBeforeMonth_mono (year : Nat) {month : Nat} (ordered : month ≤ later) :
    daysBeforeMonth year month ≤ daysBeforeMonth year later := by
  induction ordered with
  | refl => exact Nat.le_refl _
  | @step later _ ih =>
    cases later with
    | zero => exact ih
    | succ later =>
      rw [daysBeforeMonth_succ year (later + 1) (by omega)]
      omega

theorem daysBeforeYear_mono {year : Nat} (pos : 0 < year) (ordered : year ≤ later) :
    daysBeforeYear year ≤ daysBeforeYear later := by
  have leaps := leapsBefore_mono pos ordered
  unfold daysBeforeYear
  omega

variable {date : Date}

theorem Date.Valid.next (valid : date.Valid) :
    date.next.Valid ∧ date.next.number = date.number + 1 := by
  obtain ⟨year, month, december, day, last⟩ := valid
  by_cases inside : date.day < daysInMonth date.year date.month
  · have following : date.next = ⟨date.year, date.month, date.day + 1⟩ := by simp [Date.next, inside]
    rw [following]
    exact ⟨⟨year, month, december, Nat.succ_pos _, inside⟩, by simp [Date.number, Nat.add_assoc]⟩
  · have whole : date.day = daysInMonth date.year date.month := by omega
    by_cases more : date.month < 12
    · have following : date.next = ⟨date.year, date.month + 1, 1⟩ := by simp [Date.next, inside, more]
      rw [following]
      refine ⟨⟨year, Nat.succ_pos _, more, Nat.one_pos, daysInMonth_pos _ _⟩, ?_⟩
      simp only [Date.number, daysBeforeMonth_succ _ _ month]
      omega
    · have following : date.next = ⟨date.year + 1, 1, 1⟩ := by simp [Date.next, inside, more]
      have final : date.month = 12 := by omega
      have length := daysBeforeMonth_thirteen date.year
      rw [daysBeforeMonth_succ _ 12 (by omega)] at length
      rw [following]
      refine ⟨⟨Nat.succ_pos _, by simp, by simp, by simp, daysInMonth_pos _ _⟩, ?_⟩
      have none_before : daysBeforeMonth (date.year + 1) 1 = 0 := rfl
      simp only [Date.number, daysBeforeYear_succ _ year, whole, final]
      omega

/-- Days later is that many steps of the numbering. -/
theorem Date.Valid.after (valid : date.Valid) (days : Nat) :
    (date.after days).Valid ∧ (date.after days).number = date.number + days := by
  induction days with
  | zero => exact ⟨valid, rfl⟩
  | succ days ih =>
    obtain ⟨reached, number⟩ := ih
    have step := reached.next
    rw [show date.after (days + 1) = (date.after days).next from Function.iterate_succ_apply' _ _ _]
    exact ⟨step.1, by rw [step.2, number]; omega⟩

theorem Date.Valid.in_year (valid : date.Valid) :
    daysBeforeYear date.year < date.number ∧ date.number ≤ daysBeforeYear (date.year + 1) := by
  obtain ⟨year, month, december, day, last⟩ := valid
  have months := daysBeforeMonth_mono date.year (show date.month + 1 ≤ 13 by omega)
  rw [daysBeforeMonth_succ _ _ month, daysBeforeMonth_thirteen] at months
  rw [daysBeforeYear_succ _ year]
  unfold Date.number
  constructor <;> omega

variable {other : Date}

section

variable (valid : date.Valid) (another : other.Valid)
include valid another

/-- A later year has larger numbers. -/
theorem Date.Valid.year_le (ordered : date.number ≤ other.number) : date.year ≤ other.year := by
  by_contra before
  have years := daysBeforeYear_mono (show 0 < other.year + 1 by omega) (Nat.not_le.mp before)
  have first := valid.in_year.1
  have second := another.in_year.2
  omega

/-- Within a year a later month has larger numbers. -/
theorem Date.Valid.month_le (years : date.year = other.year)
    (ordered : date.number ≤ other.number) : date.month ≤ other.month := by
  by_contra before
  have months := daysBeforeMonth_mono other.year (show other.month + 1 ≤ date.month from Nat.not_le.mp before)
  rw [daysBeforeMonth_succ _ _ another.month] at months
  have first := valid.day
  have second := another.last
  unfold Date.number at ordered
  rw [years] at ordered
  omega

theorem Date.Valid.eq_of_number (same : date.number = other.number) : date = other := by
  have years : date.year = other.year :=
    Nat.le_antisymm (valid.year_le another (Nat.le_of_eq same)) (another.year_le valid (Nat.le_of_eq same.symm))
  have months : date.month = other.month :=
    Nat.le_antisymm (valid.month_le another years (Nat.le_of_eq same)) (another.month_le valid years.symm (Nat.le_of_eq same.symm))
  have days : date.day = other.day := by
    unfold Date.number at same
    rw [years, months] at same
    omega
  cases date
  simp_all

end

/-- A date with the right number is the one that the calendar reaches. -/
theorem Date.Valid.eq_after {start : Date} (begins : start.Valid) (valid : date.Valid)
    {days : Nat} (number : date.number = start.number + days) : date = start.after days :=
  valid.eq_of_number (begins.after days).1 (by rw [(begins.after days).2, number])

end Gregorian
