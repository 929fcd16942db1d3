import Mathlib.Tactic.IntervalCases
import Rtems.Clock.Timespec
import Rtems.Library.Gregorian

/-!
# The time of day of the Classic API

The Classic API reports the time of day as a calendar date. The date comes from the
seconds since 1970: the years are counted as if none of them were a leap year, and
the leap days among them are taken back, which goes at most one year down. The
other direction adds up the days from tables that start with the leap year 1988.
-/

namespace Rtems.Clock

open Gregorian

/-- The status codes of the directives. -/
inductive Status where
  | successful
  | invalidAddress
  | invalidClock
  | notDefined
deriving DecidableEq, Repr

/-- `rtems_time_of_day`. -/
structure TimeOfDay where
  year : Nat
  month : Nat
  day : Nat
  hour : Nat
  minute : Nat
  second : Nat
  ticks : Nat
deriving DecidableEq, Repr

/-- `struct timeval` of a time since 1970. -/
structure Timeval where
  tvSec : Nat
  tvUsec : Nat
deriving DecidableEq

/-- `_TOD_Days_to_date`: the days before a month, in a leap year and in another one. -/
def daysToDate : List (List Nat) :=
  [[0, 0, 31, 60, 91, 121, 152, 182, 213, 244, 274, 305, 335],
    [0, 0, 31, 59, 90, 120, 151, 181, 212, 243, 273, 304, 334]]

/-- `_TOD_Days_per_month`. -/
def daysPerMonth : List (List Nat) :=
  [[0, 31, 29, 31, 30, 31, 30, 31, 31, 30, 31, 30, 31],
    [0, 31, 28, 31, 30, 31, 30, 31, 31, 30, 31, 30, 31]]

/-- `_TOD_Days_since_last_leap_year`. -/
def daysSinceLastLeapYear : List Nat := [0, 366, 731, 1096]

/-- An entry of a table with a row for the leap years and one for the others. -/
def entry (table : List (List Nat)) (index month : Nat) : Nat := (table.getD index []).getD month 0

/-- `_Leap_year`. -/
def leapYear (year : Nat) : Bool := (year % 4 = 0 ∧ year % 100 ≠ 0) ∨ year % 400 = 0

/-- `_Leap_years_before`. -/
def leapYearsBefore (year : Nat) : Nat := (year - 1) / 4 - (year - 1) / 100 + (year - 1) / 400

/-- `_Leap_years_between`. -/
def leapYearsBetween (first last : Nat) : Nat := leapYearsBefore last - leapYearsBefore (first + 1)

/-- The loop of `_Year_day_as_month` with the number of rounds that it has left. The
row is read two months ahead. -/
def monthLoop (row : List Nat) (day : Nat) : Nat → Nat → Nat
  | 0, month => month
  | left + 1, month =>
      if day < row.getD (month + 2) 0 then month else monthLoop row day left (month + 1)

/-- `_Year_day_as_month`: the month, and the day that is left in it. -/
def yearDayAsMonth (year day : Nat) : Nat × Nat :=
  let row := daysToDate.getD (if leapYear year then 0 else 1) []
  let month := monthLoop row day 11 0
  (month, day - row.getD (month + 1) 0)

/-- The date of a day of a year, both counted from one. -/
def dateOfYearDay (year day : Nat) : Date :=
  ⟨year, (yearDayAsMonth year day).1 + 1, (yearDayAsMonth year day).2 + 1⟩

/-- The date that `rtems_clock_get_tod` computes from the days since 1970. -/
def dateOfDays (days : Nat) : Date :=
  let year := days / 365 + 1970
  let leapYears := leapYearsBetween 1970 year
  let yearDays := (days - leapYears) % 365
  if days % 365 < leapYears then
    dateOfYearDay (year - 1) (if leapYear (year - 1) then yearDays + 1 else yearDays)
  else dateOfYearDay year yearDays

/-- `rtems_clock_get_tod`. The argument is what the given address holds, none for a null
address, and the second result what it holds afterwards. The conversions to 32 bits
are those of the source; the sums and products after them stay below 32 bits. -/
def clockGetTod (config : Configuration) (isSet : Bool) (now : Timeval) (timeOfDay : Option TimeOfDay) :
    Status × Option TimeOfDay :=
  match timeOfDay with
  | none => (.invalidAddress, none)
  | some old =>
    if isSet then
      let days := now.tvSec / 86400 % 2 ^ 32
      let daySecs := now.tvSec % 86400 % 2 ^ 32
      let date := dateOfDays days
      let minute := daySecs % 3600
      (.successful, some {
        year := date.year, month := date.month, day := date.day
        hour := daySecs / 3600, minute := minute / 60, second := minute % 60
        ticks := now.tvUsec / config.watchdogMicrosecondsPerTick })
    else (.notDefined, some old)

/-- `_TOD_Get_leap_year_index`. -/
def getLeapYearIndex (year : Nat) : Nat := (year % 4 + 3) / 4

/-- `TOD_SECONDS_1970_THROUGH_1988`. -/
def seconds1970Through1988 : Nat := (1987 - 1970 + 1) * (365 * 86400) + 4 * 86400

/-- `_TOD_To_seconds`. -/
def todToSeconds (tod : TimeOfDay) : Nat :=
  let time := tod.day - 1
  let time := time + entry daysToDate (getLeapYearIndex tod.year) tod.month
  let time := time + (tod.year - 1988) / 4 * (365 * 4 + 1)
  let time := time + daysSinceLastLeapYear.getD (tod.year % 4) 0
  let time := time * 86400
  let time := time + (tod.hour * 60 + tod.minute) * 60
  let time := time + tod.second
  (time + seconds1970Through1988) % 2 ^ 32

/-- `TOD_Ticks_validation`, the mask for the ticks. -/
inductive TicksValidation where
  | disable
  | enable
deriving DecidableEq

/-- The ticks under the mask. -/
def TicksValidation.mask : TicksValidation → Nat → Nat
  | .disable, _ => 0
  | .enable, ticks => ticks

/-- `_TOD_Validate`. -/
def todValidate (config : Configuration) (ticksValidation : TicksValidation) :
    Option TimeOfDay → Status
  | none => .invalidAddress
  | some tod =>
      if config.ticksPerSecond ≤ ticksValidation.mask tod.ticks then .invalidClock
      else if 60 ≤ tod.second then .invalidClock
      else if 60 ≤ tod.minute then .invalidClock
      else if 24 ≤ tod.hour then .invalidClock
      else if tod.month = 0 ∨ 12 < tod.month then .invalidClock
      else if tod.year < 1988 ∨ 2099 < tod.year then .invalidClock
      else if tod.day = 0 then .invalidClock
      else if entry daysPerMonth (getLeapYearIndex tod.year) tod.month < tod.day then .invalidClock
      else .successful

theorem seconds1970Through1988_eq : seconds1970Through1988 = 6574 * 86400 := rfl

/-- The day at which the counting of the seconds starts. -/
def epoch : Date := ⟨1970, 1, 1⟩

theorem epoch_valid : epoch.Valid := ⟨by decide, by decide, by decide, by decide, by decide⟩

theorem epoch_number : epoch.number = 719163 := by decide

/-- The date part of a time of day. -/
def TimeOfDay.date (tod : TimeOfDay) : Date := { tod with }

theorem leapYear_iff (year : Nat) : leapYear year = true ↔ Leap year := by
  unfold leapYear Leap
  rw [decide_eq_true_iff]
  omega

theorem row_of_year (year : Nat) : (if leapYear year then 0 else 1) = if Leap year then 0 else 1 := by
  simp only [leapYear_iff]

/-- The table of the days before a month is the calendar's. -/
theorem entry_daysToDate (year month : Nat) (positive : 0 < month) (december : month ≤ 12) :
    entry daysToDate (if Leap year then 0 else 1) month = daysBeforeMonth year month := by
  by_cases leap : Leap year <;> simp only [leap, if_true, if_false] <;> interval_cases month <;>
    simp [entry, daysToDate, daysBeforeMonth, daysInMonth, leap]

/-- The table of the lengths of the months is the calendar's. -/
theorem entry_daysPerMonth (year month : Nat) (positive : 0 < month) (december : month ≤ 12) :
    entry daysPerMonth (if Leap year then 0 else 1) month = daysInMonth year month := by
  by_cases leap : Leap year <;> simp only [leap, if_true, if_false] <;> interval_cases month <;>
    simp [entry, daysPerMonth, daysInMonth, leap]

section Months

variable {row : List Nat} {day : Nat}

/-- The loop stops at the first month that does not end before the day, or at the last. -/
theorem monthLoop_spec (left month : Nat) (ends : left + month = 11)
    (before : row.getD (month + 1) 0 ≤ day) :
    monthLoop row day left month ≤ 11 ∧ row.getD (monthLoop row day left month + 1) 0 ≤ day ∧
      (monthLoop row day left month < 11 → day < row.getD (monthLoop row day left month + 2) 0) := by
  induction left generalizing month with
  | zero => exact ⟨by simp [monthLoop]; omega, before, fun more => absurd more (by simp [monthLoop]; omega)⟩
  | succ left ih =>
    by_cases inside : day < row.getD (month + 2) 0
    · simp only [monthLoop, inside, if_true]
      exact ⟨by omega, before, fun _ => trivial⟩
    · simp only [monthLoop, inside]
      exact ih (month + 1) (by omega) (Nat.not_lt.mp inside)

end Months

theorem dateOfYearDay_spec (year day : Nat) (positive : 0 < year)
    (inside : day < 365 + if Leap year then 1 else 0) :
    (dateOfYearDay year day).Valid ∧ (dateOfYearDay year day).number = daysBeforeYear year + day + 1 := by
  have row_entry (month : Nat) (some_month : 0 < month) (december : month ≤ 12) :
      (daysToDate.getD (if leapYear year then 0 else 1) []).getD month 0 = daysBeforeMonth year month := by
    rw [row_of_year]
    exact entry_daysToDate year month some_month december
  obtain ⟨most, after_start, before_end⟩ := @monthLoop_spec
    (daysToDate.getD (if leapYear year then 0 else 1) []) day 11 0 rfl
    (by rw [row_entry 1 (by omega) (by omega)]; exact Nat.zero_le day)
  unfold dateOfYearDay yearDayAsMonth
  dsimp only
  generalize monthLoop (daysToDate.getD (if leapYear year then 0 else 1) []) day 11 0 = month at *
  rw [row_entry (month + 1) (by omega) (by omega)] at after_start ⊢
  have length : daysBeforeMonth year (month + 2) = _ := daysBeforeMonth_succ year (month + 1) (by omega)
  have before_next : day < daysBeforeMonth year (month + 2) := by
    by_cases last : month < 11
    · rw [← row_entry (month + 2) (by omega) (by omega)]
      exact before_end last
    · obtain rfl : month = 11 := by omega
      rw [daysBeforeMonth_thirteen]
      exact inside
  refine ⟨⟨positive, by simp, by simp; omega, by simp, by simp; omega⟩, ?_⟩
  simp only [Date.number]
  omega

/-- The leap years of the source are those of the calendar. -/
theorem leapYearsBefore_eq (year : Nat) : leapYearsBefore year = leapsBefore year := rfl

/-- The first guess of the year is right or one too large, as long as there were not more
leap days than a year has days. -/
theorem dateOfDays_spec (days : Nat) (few : leapYearsBetween 1970 (days / 365 + 1970) ≤ 365) :
    (dateOfDays days).Valid ∧ (dateOfDays days).number = epoch.number + days := by
  have guess := Nat.div_add_mod days 365
  have remainder := Nat.mod_lt days (show 0 < 365 by decide)
  have first : daysBeforeYear (days / 365 + 1970) =
      719162 + 365 * (days / 365) + leapYearsBetween 1970 (days / 365 + 1970) := by
    have base : leapsBefore 1971 = 477 := by decide
    have more := leapsBefore_mono (show 0 < 1970 by decide) (Nat.le_add_left 1970 (days / 365))
    have same : leapsBefore 1970 = 477 := by decide
    rw [leapYearsBetween, leapYearsBefore_eq, leapYearsBefore_eq, daysBeforeYear, base]
    omega
  have guessed : dateOfDays days =
      if days % 365 < leapYearsBetween 1970 (days / 365 + 1970) then
        dateOfYearDay (days / 365 + 1970 - 1) (if leapYear (days / 365 + 1970 - 1) then
          (days - leapYearsBetween 1970 (days / 365 + 1970)) % 365 + 1
        else (days - leapYearsBetween 1970 (days / 365 + 1970)) % 365)
      else dateOfYearDay (days / 365 + 1970)
        ((days - leapYearsBetween 1970 (days / 365 + 1970)) % 365) := rfl
  rw [epoch_number, guessed]
  generalize leapYearsBetween 1970 (days / 365 + 1970) = leapYears at *
  generalize days / 365 = years at *
  generalize days % 365 = surplus at *
  by_cases overflow : surplus < leapYears
  · -- the leap days reach back into the year before the guessed one
    have last := daysBeforeYear_succ (years + 1969) (by omega)
    have year : years + 1970 - 1 = years + 1969 := by omega
    have rest : (days - leapYears) % 365 = surplus + 365 - leapYears := by
      have quotient : 0 < years := by
        by_contra none_over
        simp [daysBeforeYear, leapsBefore] at first
        omega
      have parts : days - leapYears = surplus + 365 - leapYears + 365 * (years - 1) := by omega
      rw [parts, Nat.add_mul_mod_self_left, Nat.mod_eq_of_lt (by omega)]
    rw [if_pos overflow, rest, year]
    rw [show years + 1969 + 1 = years + 1970 by omega] at last
    by_cases leap : Leap (years + 1969)
    · rw [if_pos leap] at last
      rw [if_pos ((leapYear_iff _).mpr leap)]
      obtain ⟨valid, number⟩ := dateOfYearDay_spec (years + 1969) (surplus + 365 - leapYears + 1)
        (by omega) (by rw [if_pos leap]; omega)
      exact ⟨valid, number.trans (by omega)⟩
    · rw [if_neg leap] at last
      rw [if_neg (mt (leapYear_iff _).mp leap)]
      obtain ⟨valid, number⟩ := dateOfYearDay_spec (years + 1969) (surplus + 365 - leapYears)
        (by omega) (by rw [if_neg leap]; omega)
      exact ⟨valid, number.trans (by omega)⟩
  · have rest : (days - leapYears) % 365 = surplus - leapYears := by
      have parts : days - leapYears = surplus - leapYears + 365 * years := by omega
      rw [parts, Nat.add_mul_mod_self_left, Nat.mod_eq_of_lt (by omega)]
    rw [if_neg overflow, rest]
    obtain ⟨valid, number⟩ := dateOfYearDay_spec (years + 1970) (surplus - leapYears)
      (by omega) (Nat.lt_of_lt_of_le (show surplus - leapYears < 365 by omega) (Nat.le_add_right _ _))
    exact ⟨valid, number.trans (by omega)⟩

/-- Up to the year 2514 there are few leap days since 1970. -/
theorem few_leap_years (days : Nat) (until_2514 : (epoch.after days).year ≤ 2514) :
    leapYearsBetween 1970 (days / 365 + 1970) ≤ 365 := by
  obtain ⟨valid, number⟩ := epoch_valid.after days
  have inside := valid.in_year.2
  have last : daysBeforeYear ((epoch.after days).year + 1) ≤ daysBeforeYear (2514 + 1) :=
    daysBeforeYear_mono (Nat.succ_pos _) (Nat.succ_le_succ until_2514)
  have bound : daysBeforeYear (2514 + 1) = 918219 := by decide
  rw [number, epoch_number] at inside
  unfold leapYearsBetween leapYearsBefore
  omega

/-- The days of a time of day since 1988, as the tables count them. -/
theorem table_days (year : Nat) (base : 1988 ≤ year) (latest : year ≤ 2099) :
    (year - 1988) / 4 * (365 * 4 + 1) + daysSinceLastLeapYear.getD (year % 4) 0 + 725736 =
      daysBeforeYear year := by
  have centuries : (year - 1) / 100 = (year - 1) / 400 + 15 := by omega
  obtain ⟨quotient, phase, rfl, small⟩ : ∃ quotient phase, year = 4 * quotient + 1988 + phase ∧ phase < 4 :=
    ⟨(year - 1988) / 4, (year - 1988) % 4, by omega, by omega⟩
  have rest : (4 * quotient + 1988 + phase) % 4 = phase := by omega
  have blocks : (4 * quotient + 1988 + phase - 1988) / 4 = quotient := by omega
  unfold daysBeforeYear leapsBefore
  rw [centuries, rest, blocks]
  interval_cases phase <;>
    simp only [daysSinceLastLeapYear, List.getD_cons_zero, List.getD_cons_succ] <;> omega

theorem getLeapYearIndex_eq (year : Nat) (base : 1988 ≤ year) (latest : year ≤ 2099) :
    getLeapYearIndex year = if Leap year then 0 else 1 := by
  unfold getLeapYearIndex
  by_cases leap : Leap year
  · simp only [leap, if_true]
    unfold Leap at leap
    omega
  · simp only [leap, if_false]
    unfold Leap at leap
    omega

/-- What the validation accepts. -/
theorem todValidate_successful {cfg : Configuration} {ticksValidation : TicksValidation}
    {tod : TimeOfDay} (accepted : todValidate cfg ticksValidation (some tod) = .successful) :
    tod.date.Valid ∧ 1988 ≤ tod.year ∧ tod.year ≤ 2099 ∧ tod.hour < 24 ∧ tod.minute < 60 ∧
      tod.second < 60 := by
  simp only [todValidate] at accepted
  iterate 8
    split at accepted
    · cases accepted
  next second minute hour month year day last =>
    rw [getLeapYearIndex_eq tod.year (by omega) (by omega),
      entry_daysPerMonth tod.year tod.month (by omega) (by omega)] at last
    have valid : tod.date.Valid :=
      ⟨show 0 < tod.year by omega, show 0 < tod.month by omega, show tod.month ≤ 12 by omega,
        show 0 < tod.day by omega, show tod.day ≤ daysInMonth tod.year tod.month by omega⟩
    exact ⟨valid, by omega, by omega, by omega, by omega, by omega⟩

/-- The seconds of an accepted time of day are those since the epoch. -/
theorem todToSeconds_eq {tod : TimeOfDay} (valid : tod.date.Valid) (base : 1988 ≤ tod.year)
    (latest : tod.year ≤ 2099) (hour : tod.hour < 24) (minute : tod.minute < 60)
    (second : tod.second < 60) :
    ∃ days, epoch.after days = tod.date ∧
      todToSeconds tod = days * 86400 + (tod.hour * 60 + tod.minute) * 60 + tod.second ∧
      days < 47482 := by
  have month : entry daysToDate (getLeapYearIndex tod.year) tod.month =
      daysBeforeMonth tod.year tod.month := by
    rw [getLeapYearIndex_eq tod.year base latest]
    exact entry_daysToDate tod.year tod.month valid.month valid.december
  have years := table_days tod.year base latest
  have some_day : 0 < tod.day := valid.day
  have until_last : tod.date.number ≤ daysBeforeYear (tod.year + 1) := valid.in_year.2
  have mono : daysBeforeYear (tod.year + 1) ≤ daysBeforeYear (2099 + 1) :=
    daysBeforeYear_mono (Nat.succ_pos tod.year) (Nat.succ_le_succ latest)
  have bound : daysBeforeYear (2099 + 1) = 766644 := by decide
  have number : tod.date.number = daysBeforeYear tod.year + daysBeforeMonth tod.year tod.month + tod.day :=
    rfl
  obtain ⟨days, reached⟩ : ∃ days, tod.date.number = epoch.number + days :=
    Nat.exists_eq_add_of_le (by rw [epoch_number]; omega)
  rw [epoch_number] at reached
  obtain ⟨counted, since⟩ : ∃ counted, tod.day - 1 + daysBeforeMonth tod.year tod.month +
      (tod.year - 1988) / 4 * (365 * 4 + 1) + daysSinceLastLeapYear.getD (tod.year % 4) 0 = counted :=
    ⟨_, rfl⟩
  have later : counted + 6574 = days := by omega
  have small : days < 47482 := by omega
  refine ⟨days, (epoch_valid.eq_after valid (epoch_number ▸ reached)).symm, ?_, small⟩
  unfold todToSeconds
  dsimp only
  rw [month, since, seconds1970Through1988_eq]
  have total : counted * 86400 + (tod.hour * 60 + tod.minute) * 60 + tod.second + 6574 * 86400 =
      days * 86400 + (tod.hour * 60 + tod.minute) * 60 + tod.second := by
    rw [← later]
    ring
  have fits : days * 86400 + (tod.hour * 60 + tod.minute) * 60 + tod.second < 2 ^ 32 := by omega
  rw [total, Nat.mod_eq_of_lt fits]

/-- The time of day of a second is its date in the calendar, with the time in that day. -/
theorem clockGetTod_eq (cfg : Configuration) (now : Timeval) (old : TimeOfDay)
    (until_2514 : (epoch.after (now.tvSec / 86400)).year ≤ 2514) :
    clockGetTod cfg true now (some old) = (.successful, some {
      year := (epoch.after (now.tvSec / 86400)).year
      month := (epoch.after (now.tvSec / 86400)).month
      day := (epoch.after (now.tvSec / 86400)).day
      hour := now.tvSec % 86400 / 3600
      minute := now.tvSec % 3600 / 60
      second := now.tvSec % 60
      ticks := now.tvUsec / cfg.watchdogMicrosecondsPerTick }) := by
  have few := few_leap_years _ until_2514
  obtain ⟨valid, number⟩ := dateOfDays_spec _ few
  have small : now.tvSec / 86400 < 2 ^ 32 := by
    have leaps := few
    unfold leapYearsBetween leapYearsBefore at leaps
    omega
  have date := epoch_valid.eq_after valid number
  have day_secs : now.tvSec % 86400 % 2 ^ 32 = now.tvSec % 86400 := Nat.mod_eq_of_lt (by omega)
  have hour_rest : now.tvSec % 86400 % 3600 = now.tvSec % 3600 := by omega
  have minute_rest : now.tvSec % 3600 % 60 = now.tvSec % 60 := by omega
  simp only [clockGetTod, if_true, Nat.mod_eq_of_lt small, day_secs, hour_rest, minute_rest, date]

/-- The time of day is the date and the time of the current second, for every second
from 1988 to 2514, and every accepted time of day comes back from its seconds. -/
theorem clock_tod_is_gregorian (config : Configuration) (old : TimeOfDay) :
    (∀ now : Timeval, 1988 ≤ (epoch.after (now.tvSec / 86400)).year →
      (epoch.after (now.tvSec / 86400)).year ≤ 2514 →
      clockGetTod config true now (some old) = (.successful, some {
        year := (epoch.after (now.tvSec / 86400)).year
        month := (epoch.after (now.tvSec / 86400)).month
        day := (epoch.after (now.tvSec / 86400)).day
        hour := now.tvSec % 86400 / 3600
        minute := now.tvSec % 3600 / 60
        second := now.tvSec % 60
        ticks := now.tvUsec / config.watchdogMicrosecondsPerTick })) ∧
    ∀ (ticksValidation : TicksValidation) (tod : TimeOfDay),
      todValidate config ticksValidation (some tod) = .successful → ∀ usec,
        clockGetTod config true ⟨todToSeconds tod, usec⟩ (some old) = (.successful, some
          { tod with ticks := usec / config.watchdogMicrosecondsPerTick }) := by
  constructor
  · exact fun now _ until_2514 => clockGetTod_eq config now old until_2514
  · intro ticksValidation tod accepted usec
    obtain ⟨valid, base, latest, hour, minute, second⟩ := todValidate_successful accepted
    obtain ⟨days, date, seconds, -⟩ := todToSeconds_eq valid base latest hour minute second
    have whole : todToSeconds tod / 86400 = days := by omega
    have result := clockGetTod_eq config ⟨todToSeconds tod, usec⟩ old
      (by rw [whole, date]; exact latest.trans (by decide))
    have hours : todToSeconds tod % 86400 / 3600 = tod.hour := by omega
    have minutes : todToSeconds tod % 3600 / 60 = tod.minute := by omega
    have rest : todToSeconds tod % 60 = tod.second := by omega
    simp only [whole, date, hours, minutes, rest] at result
    exact result

/-- The last second of the leap day of 2000, in both directions. -/
theorem clock_tod_is_gregorian_leap_day :
    clockGetTod ⟨10000, by decide⟩ true ⟨951868799, 0⟩ (some ⟨0, 0, 0, 0, 0, 0, 0⟩) =
        (.successful, some ⟨2000, 2, 29, 23, 59, 59, 0⟩) ∧
      clockGetTod ⟨10000, by decide⟩ true ⟨todToSeconds ⟨2000, 2, 29, 23, 59, 59, 7⟩, 0⟩
          (some ⟨0, 0, 0, 0, 0, 0, 0⟩) = (.successful, some ⟨2000, 2, 29, 23, 59, 59, 0⟩) := by
  have date : epoch.after (951868799 / 86400) = ⟨2000, 2, 29⟩ :=
    (epoch_valid.eq_after ⟨by decide, by decide, by decide, by decide, by decide⟩ (by decide)).symm
  constructor
  · have result := (clock_tod_is_gregorian ⟨10000, by decide⟩ ⟨0, 0, 0, 0, 0, 0, 0⟩).1 ⟨951868799, 0⟩
      (by rw [date]; decide) (by rw [date]; decide)
    rw [date] at result
    exact result
  · exact (clock_tod_is_gregorian ⟨10000, by decide⟩ ⟨0, 0, 0, 0, 0, 0, 0⟩).2 .enable
      ⟨2000, 2, 29, 23, 59, 59, 7⟩ (by decide) 0

end Rtems.Clock
