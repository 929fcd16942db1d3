import Mathlib.Order.Bounds.Basic
import Mathlib.Tactic.Ring

/-!
# Clock ticks of a timespec

The application configures the microseconds of a clock tick. From them come the
nanoseconds of a tick, reduced to 32 bits, and the ticks of a second, rounded down.
A timespec is converted in two parts: its seconds with the ticks of a second, its
nanoseconds with the nanoseconds of a tick, rounded up.
-/

namespace Rtems.Clock

open Nat (mod_eq_of_lt mod_lt)

/-- `CONFIGURE_MICROSECONDS_PER_TICK` and the check that `confdefs/clock.h` makes of it. -/
structure Configuration where
  microsecondsPerTick : Nat
  positive : 0 < microsecondsPerTick

section

variable (config : Configuration)

/-- `_Watchdog_Microseconds_per_tick`. -/
def Configuration.watchdogMicrosecondsPerTick : Nat := config.microsecondsPerTick % 2 ^ 32

/-- `_Watchdog_Nanoseconds_per_tick`. -/
def Configuration.nanosecondsPerTick : Nat := 1000 * config.microsecondsPerTick % 2 ^ 32

/-- `_Watchdog_Ticks_per_second`. -/
def Configuration.ticksPerSecond : Nat := 1000000 / config.microsecondsPerTick

/-- `struct timespec` of a time that is not negative. -/
structure Timespec where
  tvSec : Nat
  tvNsec : Nat
deriving DecidableEq

/-- The time in nanoseconds. -/
def Timespec.nanoseconds (time : Timespec) : Nat := time.tvSec * 1000000000 + time.tvNsec

/-- `_Timespec_To_ticks`. There is no result where the source divides by zero. -/
def timespecToTicks (time : Timespec) : Option Nat :=
  if time.tvSec = 0 ∧ time.tvNsec = 0 then some 0
  else if config.nanosecondsPerTick = 0 then none
  else
    let ticks := time.tvSec * config.ticksPerSecond % 2 ^ 32
    let ticks := (ticks + time.tvNsec / config.nanosecondsPerTick) % 2 ^ 32
    if time.tvNsec % config.nanosecondsPerTick ≠ 0 then some ((ticks + 1) % 2 ^ 32) else some ticks

/-- The tick counts that are not shorter than a time. -/
def Configuration.covers (time : Timespec) : Set Nat :=
  { ticks | time.nanoseconds ≤ ticks * config.nanosecondsPerTick }

/-- What the nanoseconds gain by their rounding to whole ticks. -/
def roundingGain (time : Timespec) : Nat :=
  (config.nanosecondsPerTick - time.tvNsec % config.nanosecondsPerTick) % config.nanosecondsPerTick

/-- What a second loses when it is counted in whole ticks. -/
def secondLoss : Nat := 1000000000 - config.ticksPerSecond * config.nanosecondsPerTick

theorem ticks_of_second_le (cfg : Configuration) :
    cfg.ticksPerSecond * cfg.nanosecondsPerTick ≤ 1000000000 := by
  have reduced : cfg.nanosecondsPerTick ≤ 1000 * cfg.microsecondsPerTick := Nat.mod_le _ _
  have whole : cfg.ticksPerSecond * cfg.microsecondsPerTick ≤ 1000000 :=
    Nat.div_mul_le_self 1000000 cfg.microsecondsPerTick
  calc cfg.ticksPerSecond * cfg.nanosecondsPerTick
      ≤ cfg.ticksPerSecond * (1000 * cfg.microsecondsPerTick) := Nat.mul_le_mul_left _ reduced
    _ = 1000 * (cfg.ticksPerSecond * cfg.microsecondsPerTick) := by ring
    _ ≤ 1000 * 1000000 := Nat.mul_le_mul_left 1000 whole

/-- Rounding up to a multiple adds the gain. -/
theorem rounded_up (value unit : Nat) (pos : 0 < unit) :
    (value / unit + if value % unit ≠ 0 then 1 else 0) * unit = value + (unit - value % unit) % unit := by
  have parts := Nat.div_add_mod value unit
  have small := mod_lt value pos
  by_cases whole : value % unit = 0
  · simp only [whole, ne_eq, not_true_eq_false, if_false, Nat.add_zero, Nat.sub_zero, Nat.mod_self]
    rw [whole, Nat.add_zero] at parts
    rw [Nat.mul_comm, parts]
  · simp only [whole, ne_eq, not_false_eq_true, if_true]
    rw [mod_eq_of_lt (by omega), Nat.add_mul, Nat.one_mul, Nat.mul_comm]
    omega

/-- The ticks of a time before their reduction to 32 bits. -/
def wholeTicks (time : Timespec) : Nat :=
  time.tvSec * config.ticksPerSecond + (time.tvNsec / config.nanosecondsPerTick +
    if time.tvNsec % config.nanosecondsPerTick ≠ 0 then 1 else 0)

end

section

variable (cfg : Configuration) (time : Timespec) (divides : 0 < cfg.nanosecondsPerTick)
include divides

/-- The duration of the ticks: what the seconds lose is missing, what the nanoseconds
gain is added. -/
theorem wholeTicks_mul :
    wholeTicks cfg time * cfg.nanosecondsPerTick + time.tvSec * secondLoss cfg =
      time.nanoseconds + roundingGain cfg time := by
  have up := rounded_up time.tvNsec cfg.nanosecondsPerTick divides
  have second : cfg.ticksPerSecond * cfg.nanosecondsPerTick + secondLoss cfg = 1000000000 := by
    have bounded := ticks_of_second_le cfg
    unfold secondLoss
    omega
  calc wholeTicks cfg time * cfg.nanosecondsPerTick + time.tvSec * secondLoss cfg
      = time.tvSec * (cfg.ticksPerSecond * cfg.nanosecondsPerTick + secondLoss cfg) +
          (time.tvNsec / cfg.nanosecondsPerTick +
            if time.tvNsec % cfg.nanosecondsPerTick ≠ 0 then 1 else 0) *
              cfg.nanosecondsPerTick := by unfold wholeTicks; ring
    _ = time.nanoseconds + roundingGain cfg time := by
        rw [second, up]
        unfold Timespec.nanoseconds roundingGain
        omega

/-- No count that covers the time is below the one of the conversion. -/
theorem wholeTicks_le (count : Nat) (covered : count ∈ cfg.covers time) :
    wholeTicks cfg time ≤ count := by
  have duration := wholeTicks_mul cfg time divides
  have gain : roundingGain cfg time < cfg.nanosecondsPerTick := mod_lt _ divides
  have enough : time.nanoseconds ≤ count * cfg.nanosecondsPerTick := covered
  have below : wholeTicks cfg time * cfg.nanosecondsPerTick <
      (count + 1) * cfg.nanosecondsPerTick := by
    rw [Nat.add_mul, Nat.one_mul]
    omega
  exact Nat.lt_succ_iff.mp (Nat.lt_of_mul_lt_mul_right below)

/-- A conversion that fits gives the ticks without a reduction. -/
theorem timespecToTicks_eq (fits : wholeTicks cfg time < 2 ^ 32) :
    timespecToTicks cfg time = some (wholeTicks cfg time) := by
  unfold timespecToTicks
  by_cases zero : time.tvSec = 0 ∧ time.tvNsec = 0
  · simp [zero, wholeTicks]
  · have nonzero : cfg.nanosecondsPerTick ≠ 0 := by omega
    unfold wholeTicks at fits ⊢
    by_cases whole : time.tvNsec % cfg.nanosecondsPerTick = 0
    · simp only [zero, nonzero, whole, if_false, ne_eq, not_true_eq_false, Nat.add_zero] at fits ⊢
      rw [Nat.mod_add_mod, mod_eq_of_lt fits]
    · simp only [zero, nonzero, whole, if_false, ne_eq, not_false_eq_true, if_true] at fits ⊢
      rw [Nat.mod_add_mod, Nat.add_assoc, Nat.mod_add_mod, mod_eq_of_lt fits]

end

/-- A time that some 32-bit count covers is converted to the least count that covers
it, exactly if its seconds lose no more than its nanoseconds gain. -/
theorem conversion_covers_iff (config : Configuration) (time : Timespec)
    (valid : time.tvNsec < 1000000000) (fits : ∃ count < 2 ^ 32, count ∈ config.covers time) :
    (∃ ticks, timespecToTicks config time = some ticks ∧ IsLeast (config.covers time) ticks) ↔
      time.tvSec * secondLoss config ≤ roundingGain config time := by
  obtain ⟨count, small, covered⟩ := fits
  rcases Nat.eq_zero_or_pos config.nanosecondsPerTick with none_left | divides
  · -- with a tick of zero nanoseconds only the empty time is covered
    have empty : time.tvSec = 0 ∧ time.tvNsec = 0 := by
      have enough : time.nanoseconds ≤ count * config.nanosecondsPerTick := covered
      rw [none_left, Nat.mul_zero] at enough
      unfold Timespec.nanoseconds at enough
      omega
    refine ⟨fun _ => by simp [empty.1], fun _ => ⟨0, by simp [timespecToTicks, empty], ?_, ?_⟩⟩
    · simp [Configuration.covers, Timespec.nanoseconds, empty]
    · exact fun other _ => Nat.zero_le other
  · have least := wholeTicks_le config time divides
    have duration := wholeTicks_mul config time divides
    have converted := timespecToTicks_eq config time divides (Nat.lt_of_le_of_lt (least count covered) small)
    have covers : wholeTicks config time ∈ config.covers time ↔
        time.tvSec * secondLoss config ≤ roundingGain config time := by
      show time.nanoseconds ≤ wholeTicks config time * config.nanosecondsPerTick ↔ _
      omega
    rw [converted]
    constructor
    · rintro ⟨ticks, same, shortest⟩
      cases same
      exact covers.mp shortest.1
    · exact fun bounded => ⟨_, rfl, covers.mpr bounded, fun other => least other⟩

/-- With ticks of ten milliseconds a second and a nanosecond take 101 of them. -/
theorem a_second_and_more_is_covered :
    (∃ ticks, timespecToTicks ⟨10000, by decide⟩ ⟨1, 1⟩ = some ticks ∧
      IsLeast (Configuration.covers ⟨10000, by decide⟩ ⟨1, 1⟩) ticks) ↔
      1 * secondLoss ⟨10000, by decide⟩ ≤ roundingGain ⟨10000, by decide⟩ ⟨1, 1⟩ := by
  apply conversion_covers_iff ⟨10000, by decide⟩ ⟨1, 1⟩ (by decide)
  refine ⟨101, by decide, ?_⟩
  show Timespec.nanoseconds ⟨1, 1⟩ ≤ 101 * Configuration.nanosecondsPerTick ⟨10000, by decide⟩
  decide

/-- With ticks of 300 milliseconds ten seconds are converted to 30 ticks, which are nine
seconds. -/
theorem ten_seconds_are_shortened :
    ¬ ∃ ticks, timespecToTicks ⟨300000, by decide⟩ ⟨10, 0⟩ = some ticks ∧
      IsLeast (Configuration.covers ⟨300000, by decide⟩ ⟨10, 0⟩) ticks := by
  rintro ⟨ticks, converted, covered, -⟩
  have thirty : timespecToTicks ⟨300000, by decide⟩ ⟨10, 0⟩ = some 30 := by decide
  have same : 30 = ticks := Option.some.inj (thirty.symm.trans converted)
  subst same
  have short : ¬ Timespec.nanoseconds ⟨10, 0⟩ ≤
      30 * Configuration.nanosecondsPerTick ⟨300000, by decide⟩ := by decide
  exact short covered

/-- A second is a whole number of ticks if the tick divides it. -/
theorem secondLoss_of_dvd (cfg : Configuration)
    (divides : cfg.microsecondsPerTick ∣ 1000000) : secondLoss cfg = 0 := by
  have bounded := Nat.le_of_dvd (by decide) divides
  have whole : cfg.ticksPerSecond * cfg.microsecondsPerTick = 1000000 := Nat.div_mul_cancel divides
  have exact_ticks : cfg.nanosecondsPerTick = 1000 * cfg.microsecondsPerTick :=
    mod_eq_of_lt (by omega)
  have product : cfg.ticksPerSecond * cfg.nanosecondsPerTick = 1000000000 := by
    calc cfg.ticksPerSecond * cfg.nanosecondsPerTick
        = 1000 * (cfg.ticksPerSecond * cfg.microsecondsPerTick) := by rw [exact_ticks]; ring
      _ = 1000000000 := by rw [whole]
  simp [secondLoss, product]

/-- `_Timespec_From_ticks`. The microseconds are counted in 32 bits. -/
def timespecFromTicks (config : Configuration) (ticks : Nat) : Timespec :=
  let usecs := ticks * config.watchdogMicrosecondsPerTick % 2 ^ 32
  { tvSec := usecs / 1000000, tvNsec := usecs % 1000000 * 1000 }

/-- The timespec has the microseconds that are left in 32 bits. -/
theorem timespecFromTicks_nanoseconds (cfg : Configuration) (ticks : Nat) :
    (timespecFromTicks cfg ticks).nanoseconds =
      1000 * (ticks * cfg.watchdogMicrosecondsPerTick % 2 ^ 32) := by
  unfold timespecFromTicks Timespec.nanoseconds
  dsimp only
  omega

/-- A tick count is kept by the way through a timespec, which has just the microseconds of
the ticks, exactly if these microseconds fit into 32 bits. -/
theorem ticks_round_trip_iff (config : Configuration) (ticks : Nat) (range : ticks < 2 ^ 32)
    (divides : config.microsecondsPerTick ∣ 1000000) :
    ((timespecFromTicks config ticks).nanoseconds = 1000 * (ticks * config.microsecondsPerTick) ∧
      timespecToTicks config (timespecFromTicks config ticks) = some ticks) ↔
      ticks * config.microsecondsPerTick < 2 ^ 32 := by
  have bounded := Nat.le_of_dvd (by decide) divides
  have unit : config.watchdogMicrosecondsPerTick = config.microsecondsPerTick :=
    mod_eq_of_lt (by omega)
  have nanoseconds : config.nanosecondsPerTick = 1000 * config.microsecondsPerTick :=
    mod_eq_of_lt (by omega)
  have positive : 0 < config.nanosecondsPerTick := by
    rw [nanoseconds]
    exact Nat.mul_pos (by decide) config.positive
  have duration := timespecFromTicks_nanoseconds config ticks
  rw [unit] at duration
  constructor
  · rintro ⟨denotes, -⟩
    have reduced : ticks * config.microsecondsPerTick % 2 ^ 32 = ticks * config.microsecondsPerTick := by
      omega
    rw [← reduced]
    exact mod_lt _ (Nat.two_pow_pos 32)
  · intro fits
    rw [mod_eq_of_lt fits] at duration
    refine ⟨duration, ?_⟩
    have whole : (timespecFromTicks config ticks).tvNsec % config.nanosecondsPerTick = 0 := by
      unfold timespecFromTicks
      rw [unit, nanoseconds, mod_eq_of_lt fits]
      dsimp only
      rw [Nat.mul_comm _ 1000, Nat.mul_mod_mul_left]
      have divided := (Nat.dvd_mod_iff divides).mpr (Nat.dvd_mul_left config.microsecondsPerTick ticks)
      rw [Nat.mod_eq_zero_of_dvd divided, Nat.mul_zero]
    have gain : roundingGain config (timespecFromTicks config ticks) = 0 := by
      rw [roundingGain, whole, Nat.sub_zero, Nat.mod_self]
    have counted : wholeTicks config (timespecFromTicks config ticks) = ticks := by
      have product := wholeTicks_mul config (timespecFromTicks config ticks) positive
      rw [gain, secondLoss_of_dvd config divides, duration] at product
      apply Nat.eq_of_mul_eq_mul_right positive
      calc wholeTicks config (timespecFromTicks config ticks) * config.nanosecondsPerTick
          = 1000 * (ticks * config.microsecondsPerTick) := by omega
        _ = ticks * config.nanosecondsPerTick := by rw [nanoseconds]; ring
    have converted := timespecToTicks_eq config (timespecFromTicks config ticks) positive
      (counted.symm ▸ range)
    rw [converted, counted]

/-- A day of ticks of ten milliseconds does not fit, an hour does. -/
theorem ticks_of_an_hour_round_trip :
    (timespecFromTicks ⟨10000, by decide⟩ 360000).nanoseconds = 1000 * (360000 * 10000) ∧
      timespecToTicks ⟨10000, by decide⟩ (timespecFromTicks ⟨10000, by decide⟩ 360000) =
        some 360000 :=
  (ticks_round_trip_iff ⟨10000, by decide⟩ 360000 (by decide) (by decide)).mpr (by decide)

/-- A day of ticks of ten milliseconds comes back as less than half an hour. -/
theorem ticks_of_a_day_are_lost :
    ¬ ∀ (config : Configuration) (ticks : Nat), ticks < 2 ^ 32 →
      config.microsecondsPerTick ∣ 1000000 →
        (timespecFromTicks config ticks).nanoseconds = 1000 * (ticks * config.microsecondsPerTick) ∧
          timespecToTicks config (timespecFromTicks config ticks) = some ticks := by
  intro claim
  have kept := (claim ⟨10000, by decide⟩ 8640000 (by decide) (by decide)).2
  revert kept
  decide

/-- `_Timespec_Divide`: the integer part and the thousandths of the percentage. The times
and the scaled numerator have 64 bits, the integer part has 32. -/
def timespecDivide (lhs rhs : Timespec) : Nat × Nat :=
  let left := lhs.nanoseconds % 2 ^ 64
  let right := rhs.nanoseconds % 2 ^ 64
  if right = 0 then (0, 0)
  else
    let answer := left * 100000 % 2 ^ 64 / right
    (answer / 1000 % 2 ^ 32, answer % 1000)

/-- A numerator that is too large for the type loses at least one in the quotient, as the
divisor is not too large. -/
theorem reduced_quotient_lt {numerator divisor modulus : Nat} (pos : 0 < divisor)
    (divisorBound : divisor ≤ modulus) (large : modulus ≤ numerator) :
    numerator % modulus / divisor < numerator / divisor := by
  have reduced : numerator % modulus + divisor ≤ numerator := by
    have parts := Nat.div_add_mod numerator modulus
    have once : modulus * 1 ≤ modulus * (numerator / modulus) :=
      Nat.mul_le_mul_left _ ((Nat.one_le_div_iff (by omega)).mpr large)
    omega
  calc numerator % modulus / divisor < numerator % modulus / divisor + 1 := Nat.lt_succ_self _
    _ = (numerator % modulus + divisor) / divisor := (Nat.add_div_right _ pos).symm
    _ ≤ numerator / divisor := Nat.div_le_div_right reduced

/-- The percentage of two times of which the first is not longer is exact, and so not above
one hundred, exactly if the scaled numerator fits into 64 bits. -/
theorem percentage_exact_iff (lhs rhs : Timespec) (ordered : lhs.nanoseconds ≤ rhs.nanoseconds)
    (positive : 0 < rhs.nanoseconds) (fits : rhs.nanoseconds < 2 ^ 64) :
    ((timespecDivide lhs rhs).2 < 1000 ∧
      (timespecDivide lhs rhs).1 * 1000 + (timespecDivide lhs rhs).2 =
        100000 * lhs.nanoseconds / rhs.nanoseconds ∧
      (timespecDivide lhs rhs).1 * 1000 + (timespecDivide lhs rhs).2 ≤ 100000) ↔
      100000 * lhs.nanoseconds < 2 ^ 64 := by
  have value : timespecDivide lhs rhs =
      (lhs.nanoseconds * 100000 % 2 ^ 64 / rhs.nanoseconds / 1000 % 2 ^ 32,
        lhs.nanoseconds * 100000 % 2 ^ 64 / rhs.nanoseconds % 1000) := by
    unfold timespecDivide
    rw [mod_eq_of_lt fits, mod_eq_of_lt (Nat.lt_of_le_of_lt ordered fits)]
    exact if_neg (by omega)
  have most : 100000 * lhs.nanoseconds / rhs.nanoseconds ≤ 100000 := by
    rw [Nat.div_le_iff_le_mul_add_pred positive]
    omega
  rw [value, Nat.mul_comm lhs.nanoseconds]
  generalize quotient : 100000 * lhs.nanoseconds % 2 ^ 64 / rhs.nanoseconds = answer
  constructor
  · rintro ⟨-, exactly, -⟩
    by_contra large
    have less := reduced_quotient_lt positive fits.le (Nat.not_lt.mp large)
    omega
  · intro small
    rw [mod_eq_of_lt small] at quotient
    omega

/-- Half of an hour in an hour. -/
theorem percentage_of_half_an_hour :
    (timespecDivide ⟨1800, 0⟩ ⟨3600, 0⟩).2 < 1000 ∧
      (timespecDivide ⟨1800, 0⟩ ⟨3600, 0⟩).1 * 1000 + (timespecDivide ⟨1800, 0⟩ ⟨3600, 0⟩).2 =
        100000 * Timespec.nanoseconds ⟨1800, 0⟩ / Timespec.nanoseconds ⟨3600, 0⟩ ∧
      (timespecDivide ⟨1800, 0⟩ ⟨3600, 0⟩).1 * 1000 + (timespecDivide ⟨1800, 0⟩ ⟨3600, 0⟩).2 ≤
        100000 :=
  (percentage_exact_iff ⟨1800, 0⟩ ⟨3600, 0⟩ (by decide) (by decide) (by decide)).mpr (by decide)

/-- A thread that has all of the time gets less than eight percent after 200000 seconds. -/
theorem percentage_after_three_days_is_lost :
    ¬ ∀ lhs rhs : Timespec, lhs.tvNsec < 1000000000 → rhs.tvNsec < 1000000000 →
      lhs.nanoseconds ≤ rhs.nanoseconds → 0 < rhs.nanoseconds → rhs.nanoseconds < 2 ^ 64 →
        (timespecDivide lhs rhs).2 < 1000 ∧
          (timespecDivide lhs rhs).1 * 1000 + (timespecDivide lhs rhs).2 =
            100000 * lhs.nanoseconds / rhs.nanoseconds ∧
          (timespecDivide lhs rhs).1 * 1000 + (timespecDivide lhs rhs).2 ≤ 100000 := by
  intro claim
  have kept := (claim ⟨200000, 0⟩ ⟨200000, 0⟩ (by decide) (by decide) (by decide) (by decide)
    (by decide)).2.1
  revert kept
  decide

end Rtems.Clock
