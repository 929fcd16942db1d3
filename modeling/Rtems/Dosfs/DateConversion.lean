import Mathlib.Tactic.IntervalCases
import Rtems.Library.Gregorian

/-!
# Dates on the disk

A date on the disk has five bits for the day, four for the month and seven for the years since 1980.
Every fourth year of the range counts as a leap year. The last conversion is remembered in each
direction.
-/

namespace Rtems.Dosfs

def secondsPerDay : Nat := 86400

/-- `DAYSTO1980` -/
def daysTo1980 : Nat := 3652

def regyear : List Nat := [31, 28, 31, 30, 31, 30, 31, 31, 30, 31, 30, 31]

def leapyear : List Nat := [31, 29, 31, 30, 31, 30, 31, 31, 30, 31, 30, 31]

/-- The days of a year, and of its months. -/
def daysOfYear (year : Nat) : Nat := if year % 4 ≠ 0 then 365 else 366

def monthsOf (year : Nat) : List Nat := if year % 4 ≠ 0 then regyear else leapyear

/-- The static variables that remember the last conversion. -/
structure LastConversion where
  lasttime : Nat
  lastday : Nat
  lastddate : Nat
  lastdtime : Nat
  lastdosdate : Nat
  lastseconds : Nat

/-- The loop over the years. A year has a day. -/
def yearLoop : Nat → Nat → Nat → Nat × Nat
  | 0, year, days => (year, days)
  | fuel + 1, year, days =>
    if days < daysOfYear year then (year, days)
    else yearLoop fuel (year + 1) (days - daysOfYear year)

/-- The loop over the months. -/
def monthLoop : List Nat → Nat → Nat → Nat × Nat
  | [], month, days => (month, days)
  | length :: months, month, days =>
    if days < length then (month, days) else monthLoop months (month + 1) (days - length)

/-- The date of a day since 1970. -/
def ddateOf (days : Nat) : Nat :=
  let (year, days) := yearLoop days 1970 days
  let (month, days) := monthLoop (monthsOf year) 0 days
  let ddate := ((days + 1) + (month + 1) * 2 ^ 5) % 2 ^ 16
  if year > 1980 then (ddate + (year - 1980) * 2 ^ 9) % 2 ^ 16 else ddate

def dtimeOf (t : Nat) : Nat := t % 60 / 2 + t / 60 % 60 * 2 ^ 5 + t / 3600 % 24 * 2 ^ 11

/-- The sum of the days of the years since 1980. -/
def daysOfYears : Nat → Nat
  | 0 => 0
  | year + 1 => daysOfYears year + daysOfYear year

/-- The loop that adds the days of the months. A read behind the table has no value. -/
def addMonths : List Nat → Nat → Nat → Option Nat
  | _, 0, days => some days
  | [], _ + 1, _ => none
  | length :: months, count + 1, days => addMonths months count (days + length)

def dayField (dd : Nat) : Nat := dd % 2 ^ 5
def monthField (dd : Nat) : Nat := dd / 2 ^ 5 % 2 ^ 4
def yearField (dd : Nat) : Nat := dd / 2 ^ 9 % 2 ^ 7

/-- The seconds since 1970 of the beginning of a date. -/
def secondsOfDate (dd : Nat) : Option Nat :=
  let month := if monthField dd = 0 then 1 else monthField dd
  (addMonths (monthsOf (yearField dd)) (month - 1) (daysOfYears (yearField dd))).map fun days =>
    ((days + dayField dd + (2 ^ 32 - 1)) % 2 ^ 32 + daysTo1980) * secondsPerDay % 2 ^ 32

def secondsOfTime (dt : Nat) : Nat :=
  2 * (dt % 2 ^ 5) + dt / 2 ^ 5 % 2 ^ 6 * 60 + dt / 2 ^ 11 % 2 ^ 5 * 3600

namespace LastConversion

def initial : LastConversion :=
  { lasttime := 0, lastday := 0, lastddate := 0, lastdtime := 0, lastdosdate := 0, lastseconds := 0 }

/-- `msdos_date_unix2dos`, before the results are stored. -/
def convert (last : LastConversion) (t : Nat) : LastConversion :=
  if last.lasttime ≠ t then
    let last := { last with lasttime := t, lastdtime := dtimeOf t }
    let days := t / secondsPerDay
    if days ≠ last.lastday then { last with lastday := days, lastddate := ddateOf days } else last
  else last

/-- `msdos_date_unix2dos`: the date and the time. -/
def unix2dos (last : LastConversion) (t : Nat) : (Nat × Nat) × LastConversion :=
  let last := last.convert t
  ((last.lastddate, last.lastdtime), last)

/-- `msdos_date_dos2unix`, which has no value if it reads behind a table. -/
def dos2unix (last : LastConversion) (dd dt : Nat) : Option (Nat × LastConversion) :=
  if last.lastdosdate ≠ dd then
    (secondsOfDate dd).map fun seconds =>
      ((secondsOfTime dt + seconds) % 2 ^ 32,
        { last with lastdosdate := dd % 2 ^ 16, lastseconds := seconds })
  else some ((secondsOfTime dt + last.lastseconds) % 2 ^ 32, last)

end LastConversion

/-- A call of one of the conversions. -/
inductive Conversion where
  | unix2dos (t : Nat)
  | dos2unix (dd dt : Nat)

/-- The variables after a sequence of calls that read inside the tables. -/
def LastConversion.after : LastConversion → List Conversion → Option LastConversion
  | last, [] => some last
  | last, .unix2dos t :: calls => (last.unix2dos t).2.after calls
  | last, .dos2unix dd dt :: calls => (last.dos2unix dd dt).bind fun result => result.2.after calls

/-- The variables hold a conversion in each direction, the first date excepted. -/
structure LastConversion.Consistent (last : LastConversion) : Prop where
  lastday : last.lastday = last.lasttime / secondsPerDay
  lastdtime : last.lastdtime = dtimeOf last.lasttime
  lastddate : last.lastday = 0 ∧ last.lastddate = 0 ∨ last.lastddate = ddateOf last.lastday
  lastseconds : last.lastdosdate = 0 ∨ secondsOfDate last.lastdosdate = some last.lastseconds

/-- The days before a year of a calendar in which every fourth year is a leap year. -/
def daysBefore (year : Nat) : Nat := year * 365 + (year - 1) / 4

/-- A day with the months and the days of its year that are before it. -/
structure Splits (days year month rest : Nat) : Prop where
  since : 1970 ≤ year
  number : daysBefore year + (((monthsOf year).take month).sum + rest) = daysBefore 1970 + days
  within : ((monthsOf year).take month).sum + rest < daysOfYear year
  length : ∃ length, (monthsOf year)[month]? = some length ∧ rest < length

variable {days : Nat} {last : LastConversion}

theorem monthsOf_sum (year : Nat) : (monthsOf year).sum = daysOfYear year := by
  rw [monthsOf, daysOfYear]
  split <;> rfl

theorem monthsOf_length (year : Nat) : (monthsOf year).length = 12 := by
  rw [monthsOf]
  split <;> rfl

theorem month_le {year month length : Nat} (found : (monthsOf year)[month]? = some length) :
    length ≤ 31 := by
  have table : ∀ length ∈ monthsOf year, length ≤ 31 := by
    rw [monthsOf]
    split <;> decide
  exact table length (List.mem_of_getElem? found)

theorem yearLoop_spec {fuel year rest : Nat} (since : 1970 ≤ year) (enough : rest ≤ fuel)
    (number : daysBefore year + rest = daysBefore 1970 + days) :
    ∃ final left, yearLoop fuel year rest = (final, left) ∧ 1970 ≤ final ∧
      left < daysOfYear final ∧ daysBefore final + left = daysBefore 1970 + days := by
  induction fuel generalizing year rest with
  | zero =>
    refine ⟨year, rest, rfl, since, ?_, number⟩
    rw [daysOfYear]
    split <;> omega
  | succ fuel ih =>
    rw [yearLoop]
    split
    case isTrue less => exact ⟨year, rest, rfl, since, less, number⟩
    case isFalse whole =>
      rw [daysOfYear] at whole ⊢
      apply ih
      · omega
      · split at whole <;> split <;> omega
      · rw [← number, daysBefore, daysBefore]
        split at whole <;> split <;> omega

theorem monthLoop_spec {months : List Nat} (month : Nat) (inside : days < months.sum) :
    ∃ count rest, monthLoop months month days = (month + count, rest) ∧
      (∃ length, months[count]? = some length ∧ rest < length) ∧
      (months.take count).sum + rest = days := by
  induction months generalizing month days with
  | nil => cases inside
  | cons length months ih =>
    rw [monthLoop]
    split
    case isTrue less => exact ⟨0, days, rfl, ⟨length, rfl, less⟩, by simp⟩
    case isFalse whole =>
      rw [List.sum_cons] at inside
      obtain ⟨count, rest, left, last, sum⟩ := @ih (days - length) (month + 1) (by omega)
      refine ⟨count + 1, rest, by rw [left, Nat.add_assoc, Nat.add_comm 1], last, ?_⟩
      rw [List.take_succ_cons, List.sum_cons]
      omega

theorem addMonths_eq {months : List Nat} {count : Nat} (inside : count ≤ months.length) (days : Nat) :
    addMonths months count days = some (days + (months.take count).sum) := by
  induction months generalizing count days with
  | nil =>
    obtain rfl := Nat.le_zero.mp inside
    rfl
  | cons length months ih =>
    cases count with
    | zero => rfl
    | succ count =>
      rw [addMonths, ih (Nat.le_of_succ_le_succ inside), List.take_succ_cons, List.sum_cons,
        Nat.add_assoc]

/-- The fields of the date of a day. -/
theorem ddateOf_spec (few : days < 49711) : ∃ year month rest, Splits days year month rest ∧
    yearField (ddateOf days) = year - 1980 ∧ monthField (ddateOf days) = month + 1 ∧
    dayField (ddateOf days) = rest + 1 ∧ month < 12 ∧ ddateOf days ≠ 0 := by
  obtain ⟨year, left, years, since, inside, number⟩ :=
    @yearLoop_spec days days 1970 days (by decide) (Nat.le_refl _) rfl
  have most : year ≤ 2106 := by
    rw [daysBefore, daysBefore] at number
    omega
  rw [← monthsOf_sum] at inside
  obtain ⟨month, rest, months, length, sum⟩ := monthLoop_spec 0 inside
  obtain ⟨size, found, less⟩ := length
  have bounded := month_le found
  have december := (List.getElem?_eq_some_iff.mp found).1
  rw [monthsOf_length] at december
  rw [monthsOf_sum] at inside
  have date : ddateOf days = rest + 1 + (month + 1) * 2 ^ 5 + (year - 1980) * 2 ^ 9 := by
    rw [ddateOf, years]
    dsimp only
    rw [months]
    split <;> omega
  refine ⟨year, month, rest, ⟨since, sum ▸ number, sum ▸ inside, size, found, less⟩, ?_⟩
  rw [date, yearField, monthField, dayField]
  omega

theorem daysOfYears_eq (year : Nat) : daysOfYears year = 365 * year + (year + 3) / 4 := by
  induction year with
  | zero => rfl
  | succ year ih =>
    rw [daysOfYears, ih, daysOfYear]
    split <;> omega

/-- A day since 1980 in its year. -/
theorem Splits.since1980 {year month rest : Nat} (split : Splits days year month rest)
    (late : daysTo1980 ≤ days) : 1980 ≤ year := by
  have number := split.number
  have within := split.within
  rw [daysTo1980] at late
  rw [daysOfYear] at within
  rw [daysBefore, daysBefore] at number
  split at within <;> omega

/-- A date since 1980 begins at its day. -/
theorem secondsOfDate_ddateOf (late : daysTo1980 ≤ days) (few : days < 49711) :
    secondsOfDate (ddateOf days) = some (days * secondsPerDay % 2 ^ 32) := by
  obtain ⟨year, month, rest, split, years, months, day, december, _⟩ := ddateOf_spec few
  have since := split.since1980 late
  have table : monthsOf (year - 1980) = monthsOf year := by
    rw [monthsOf, monthsOf, (by omega : (year - 1980) % 4 = year % 4)]
  have number := split.number
  rw [daysBefore, daysBefore] at number
  rw [secondsOfDate, years, months, day, table]
  rw [if_neg (Nat.succ_ne_zero month), Nat.add_sub_cancel,
    addMonths_eq (by rw [monthsOf_length]; omega), daysOfYears_eq, Option.map_some]
  rw [daysTo1980] at late ⊢
  have sum : (365 * (year - 1980) + (year - 1980 + 3) / 4 + ((monthsOf year).take month).sum +
      (rest + 1) + (2 ^ 32 - 1)) % 2 ^ 32 + 3652 = days := by omega
  rw [sum]

theorem secondsOfTime_dtimeOf (t : Nat) :
    secondsOfTime (dtimeOf t) + t / secondsPerDay * secondsPerDay = t - t % 2 := by
  rw [secondsOfTime, dtimeOf, secondsPerDay]
  omega

variable {dd : Nat}

variable {calls : List Conversion}

namespace LastConversion

theorem initial_consistent : initial.Consistent :=
  ⟨rfl, rfl, Or.inl ⟨rfl, rfl⟩, Or.inl rfl⟩

theorem Consistent.convert (consistent : last.Consistent) (t : Nat) :
    (last.convert t).Consistent ∧ (last.convert t).lasttime = t := by
  rw [LastConversion.convert]
  dsimp only
  split
  case isFalse same => exact ⟨consistent, not_not.mp same⟩
  case isTrue =>
    split
    case isTrue => exact ⟨⟨rfl, rfl, Or.inr rfl, consistent.lastseconds⟩, rfl⟩
    case isFalse same =>
      exact ⟨⟨(not_not.mp same).symm, rfl, consistent.lastddate, consistent.lastseconds⟩, rfl⟩

/-- The upper bits of a date are not read. -/
theorem secondsOfDate_mod (dd : Nat) : secondsOfDate (dd % 2 ^ 16) = secondsOfDate dd := by
  have year : yearField (dd % 2 ^ 16) = yearField dd := by
    rw [yearField, yearField]
    omega
  have month : monthField (dd % 2 ^ 16) = monthField dd := by
    rw [monthField, monthField]
    omega
  have day : dayField (dd % 2 ^ 16) = dayField dd := by
    rw [dayField, dayField]
    omega
  rw [secondsOfDate, secondsOfDate, year, month, day]

theorem Consistent.dos2unix (consistent : last.Consistent) {dt seconds : Nat}
    {after : LastConversion} (converted : last.dos2unix dd dt = some (seconds, after)) :
    after.Consistent := by
  rw [LastConversion.dos2unix] at converted
  split at converted
  case isFalse =>
    cases converted
    exact consistent
  case isTrue =>
    obtain ⟨begins, read, result⟩ := Option.map_eq_some_iff.mp converted
    cases result
    exact { consistent with lastseconds := Or.inr ((secondsOfDate_mod dd).trans read) }

theorem Consistent.after (consistent : last.Consistent) {final : LastConversion}
    (ran : last.after calls = some final) : final.Consistent := by
  induction calls generalizing last with
  | nil =>
    cases ran
    exact consistent
  | cons call calls ih =>
    cases call with
    | unix2dos t => exact ih (consistent.convert t).1 ran
    | dos2unix dd dt =>
      obtain ⟨⟨seconds, middle⟩, converted, ran⟩ := Option.bind_eq_some_iff.mp ran
      exact ih (consistent.dos2unix converted) ran

/-- A date that is not zero is converted without the variables. -/
theorem Consistent.dos2unix_eq (consistent : last.Consistent) (some : 0 < dd) (dt : Nat) :
    (last.dos2unix dd dt).map Prod.fst =
      (secondsOfDate dd).map fun seconds => (secondsOfTime dt + seconds) % 2 ^ 32 := by
  rw [LastConversion.dos2unix]
  split
  case isTrue => rw [Option.map_map]; rfl
  case isFalse same =>
    obtain rfl := not_not.mp same
    rw [consistent.lastseconds.resolve_left (by omega)]
    rfl

end LastConversion

theorem secondsOfDate_some (month : monthField dd ≤ 13) :
    ∃ seconds, secondsOfDate dd = some seconds := by
  rw [secondsOfDate]
  rw [addMonths_eq (by rw [monthsOf_length]; split <;> omega)]
  exact ⟨_, rfl⟩

open Gregorian in
/-- The months of a year in which the calendars agree. -/
theorem monthsOf_agree {year month length : Nat} (leap : Leap year ↔ year % 4 = 0)
    (found : (monthsOf year)[month]? = some length) :
    daysBeforeMonth year (month + 1) = ((monthsOf year).take month).sum ∧
      daysInMonth year (month + 1) = length := by
  have december := (List.getElem?_eq_some_iff.mp found).1
  rw [monthsOf_length] at december
  rw [monthsOf] at found ⊢
  by_cases four : year % 4 = 0 <;> interval_cases month <;>
    simp [daysBeforeMonth, daysInMonth, leap, four, regyear, leapyear] at found ⊢ <;> exact found

/-- The date of a directory entry. -/
def dateOf (dd : Nat) : Gregorian.Date := ⟨1980 + yearField dd, monthField dd, dayField dd⟩

open Gregorian in
/-- A day since 1980 has its date in the calendar. -/
theorem dateOf_ddateOf (late : daysTo1980 ≤ days)
    (before : Date.number ⟨1970, 1, 1⟩ + days < Date.number ⟨2100, 3, 1⟩) :
    dateOf (ddateOf days) = Date.after ⟨1970, 1, 1⟩ days := by
  have march : Date.number ⟨2100, 3, 1⟩ = 766704 := by decide
  have first : Date.number ⟨1970, 1, 1⟩ = 719163 := by decide
  obtain ⟨year, month, rest, split, years, months, day, december, _⟩ :=
    @ddateOf_spec days (by omega)
  have since := split.since1980 late
  have number := split.number
  obtain ⟨length, found, less⟩ := split.length
  rw [daysBefore, daysBefore] at number
  have date : dateOf (ddateOf days) = ⟨year, month + 1, rest + 1⟩ := by
    rw [dateOf, years, months, day, Nat.add_sub_cancel' since]
  have months : daysBeforeMonth year (month + 1) = ((monthsOf year).take month).sum ∧
      rest + 1 ≤ daysInMonth year (month + 1) := by
    by_cases century : year < 2100
    · obtain ⟨sum, size⟩ := monthsOf_agree (by rw [Leap]; omega) found
      exact ⟨sum, size ▸ less⟩
    · obtain rfl : year = 2100 := by omega
      have table : ∀ month < 12, 2 ≤ month → 60 ≤ ((monthsOf 2100).take month).sum := by decide
      have early := table month december
      obtain rfl | rfl : month = 0 ∨ month = 1 := by omega
      · cases found
        exact ⟨rfl, less⟩
      · have january : ((monthsOf 2100).take 1).sum = 31 := rfl
        exact ⟨rfl, (by omega : rest + 1 ≤ 28)⟩
  have valid : Date.Valid ⟨year, month + 1, rest + 1⟩ :=
    ⟨(by omega : 0 < year), Nat.succ_pos month, december, Nat.succ_pos rest, months.2⟩
  rw [date]
  refine Date.Valid.eq_after ⟨by decide, by decide, by decide, by decide, by decide⟩ valid ?_
  rw [Date.number, months.1, daysBeforeYear, leapsBefore]
  dsimp only
  omega

namespace LastConversion

theorem Consistent.unix2dos_date (consistent : last.Consistent) (t : Nat) :
    (last.unix2dos t).1.2 = dtimeOf t ∧ (t / secondsPerDay = 0 ∧ (last.unix2dos t).1.1 = 0 ∨
      (last.unix2dos t).1.1 = ddateOf (t / secondsPerDay)) := by
  obtain ⟨kept, time⟩ := consistent.convert t
  have date := kept.lastddate
  rw [kept.lastday, time] at date
  exact ⟨kept.lastdtime.trans (congrArg _ time), date⟩

theorem Consistent.unix2dos_late (consistent : last.Consistent) {t : Nat}
    (late : daysTo1980 ≤ t / secondsPerDay) :
    (last.unix2dos t).1.1 = ddateOf (t / secondsPerDay) := by
  refine (consistent.unix2dos_date t).2.resolve_left fun first => ?_
  rw [first.1] at late
  exact absurd late (by decide)

/-- A time since 1980 is converted forth and back. -/
theorem Consistent.round_trip (consistent : last.Consistent) {t : Nat}
    (late : daysTo1980 ≤ t / secondsPerDay) (word : t < 2 ^ 32) :
    ((last.unix2dos t).2.dos2unix (last.unix2dos t).1.1 (last.unix2dos t).1.2).map Prod.fst =
      some (t - t % 2) := by
  have few : t / secondsPerDay < 49711 := by
    rw [secondsPerDay]
    omega
  obtain ⟨_, _, _, _, _, _, _, _, nonzero⟩ := ddateOf_spec few
  have time := secondsOfTime_dtimeOf t
  rw [(consistent.unix2dos_date t).1, consistent.unix2dos_late late]
  refine ((consistent.convert t).1.dos2unix_eq (Nat.pos_of_ne_zero nonzero) _).trans ?_
  rw [secondsOfDate_ddateOf late few, Option.map_some]
  congr 1
  omega

theorem Consistent.unix2dos_early (consistent : last.Consistent) {t : Nat}
    (early : t < daysTo1980 * secondsPerDay) : yearField (last.unix2dos t).1.1 = 0 := by
  have days : t / secondsPerDay < daysTo1980 := Nat.div_lt_of_lt_mul (by rwa [Nat.mul_comm])
  rcases (consistent.unix2dos_date t).2 with ⟨_, zero⟩ | date
  · rw [zero]
    rfl
  · rw [daysTo1980] at days
    obtain ⟨year, month, rest, split, years, _⟩ := @ddateOf_spec (t / secondsPerDay) (by omega)
    have number := split.number
    rw [daysBefore, daysBefore] at number
    rw [date, years]
    omega

end LastConversion

open Gregorian LastConversion in
/-- Whatever was converted before, a time since 1980 and its date are converted without it. -/
theorem conversions_are_independent (ran : initial.after calls = some last) :
    (∀ t, daysTo1980 * secondsPerDay ≤ t → t < 2 ^ 32 →
      ((last.unix2dos t).2.dos2unix (last.unix2dos t).1.1 (last.unix2dos t).1.2).map Prod.fst =
        some (t - t % 2)) ∧
    (∀ dd dt, 0 < dd → monthField dd ≤ 13 → ∃ seconds,
      (last.dos2unix dd dt).map Prod.fst = some seconds ∧
      (initial.dos2unix dd dt).map Prod.fst = some seconds) ∧
    (∀ t, daysTo1980 * secondsPerDay ≤ t →
      Date.number ⟨1970, 1, 1⟩ + t / secondsPerDay < Date.number ⟨2100, 3, 1⟩ →
      dateOf (last.unix2dos t).1.1 = Date.after ⟨1970, 1, 1⟩ (t / secondsPerDay)) ∧
    ∀ t, t < daysTo1980 * secondsPerDay → yearField (last.unix2dos t).1.1 = 0 := by
  have consistent := initial_consistent.after ran
  have day : ∀ {t}, daysTo1980 * secondsPerDay ≤ t → daysTo1980 ≤ t / secondsPerDay := fun late =>
    (Nat.le_div_iff_mul_le (by decide)).mpr late
  refine ⟨fun t late => consistent.round_trip (day late), ?_, ?_,
    fun t => consistent.unix2dos_early⟩
  · intro dd dt nonzero month
    obtain ⟨seconds, read⟩ := secondsOfDate_some month
    rw [consistent.dos2unix_eq nonzero, initial_consistent.dos2unix_eq nonzero, read]
    exact ⟨_, rfl, rfl⟩
  · intro t late before
    rw [consistent.unix2dos_late (day late)]
    exact dateOf_ddateOf (day late) before

open LastConversion in
/-- The same date is converted twice, with a time between. -/
theorem conversions_after_three_calls :
    ∃ last, initial.after [.dos2unix 33 0, .unix2dos 315532800, .dos2unix 33 0] = some last ∧
      (last.unix2dos 315532801).1 = (33, 0) ∧
      ((last.unix2dos 315532801).2.dos2unix 33 0).map Prod.fst = some 315532800 := by
  refine ⟨_, rfl, by decide +kernel, ?_⟩
  exact (@conversions_are_independent _ [.dos2unix 33 0, .unix2dos 315532800, .dos2unix 33 0]
    rfl).1 315532801 (by decide) (by decide)

open Gregorian LastConversion in
/-- The second day of 1970 gets a date of 1980. -/
theorem early_date_not_gregorian : ¬ ∀ calls last, initial.after calls = some last → ∀ t,
    Date.number ⟨1970, 1, 1⟩ + t / secondsPerDay < Date.number ⟨2100, 3, 1⟩ →
    dateOf (last.unix2dos t).1.1 = Date.after ⟨1970, 1, 1⟩ (t / secondsPerDay) := by
  intro all
  exact absurd (all [] initial rfl 86400 (by decide)) (by decide)

end Rtems.Dosfs
