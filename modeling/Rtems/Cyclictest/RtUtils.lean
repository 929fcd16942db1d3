import Mathlib.Tactic.Ring

/-!
# The expected wake-up of a measurement thread

A measurement thread expects its wake-ups one interval apart. At the end of a cycle the
expected time is advanced by one interval, and by one more for each overrun of a cyclic
timer. While the time that was read still lies after it, further intervals are added.
-/

namespace Rtems.Cyclictest

/-- `struct timespec`. -/
structure Timespec where
  tvSec : Int
  tvNsec : Int
deriving DecidableEq

/-- The time in nanoseconds. -/
def Timespec.nanoseconds (time : Timespec) : Int := 1000000000 * time.tvSec + time.tvNsec

/-- What a clock reads: the nanoseconds are those of a part of a second. -/
def Timespec.Normal (time : Timespec) : Prop := 0 ≤ time.tvNsec ∧ time.tvNsec < 1000000000

instance (time : Timespec) : Decidable time.Normal := inferInstanceAs (Decidable (_ ∧ _))

/-- `tsnorm`. -/
def tsnorm (ts : Timespec) : Timespec :=
  if 1000000000 ≤ ts.tvNsec then tsnorm ⟨ts.tvSec + 1, ts.tvNsec - 1000000000⟩ else ts
termination_by ts.tvNsec.toNat
decreasing_by omega

/-- `tsgreater`. -/
def tsgreater (a b : Timespec) : Bool :=
  decide (b.tvSec < a.tvSec) || (a.tvSec == b.tvSec && decide (b.tvNsec < a.tvNsec))

/-- The waiting modes of a measurement thread. -/
inductive Mode where
  | cyclic
  | clockNanosleep
  | sysItimer
  | sysNanosleep
deriving DecidableEq

/-- The options that determine the intervals, as `int`. -/
structure Options where
  interval : BitVec 32
  distance : BitVec 32
  histogram : Bool

/-- What `process_options` makes of the arguments of `-i` and `-d`, each converted by
`atoi`: nothing is refused. -/
def processOptions (interval distance : Option (BitVec 32)) (histogram : Bool) : Options where
  interval := interval.getD 1000
  distance := if distance.getD (-1) = -1 then 500 else distance.getD (-1)
  histogram := histogram

/-- The interval that `main` gives to each thread in turn. -/
def Options.threadInterval (options : Options) : Nat → BitVec 32
  | 0 => options.interval
  | i + 1 =>
    if options.histogram then options.threadInterval i
    else options.threadInterval i + options.distance

/-- `par->interval`, an `unsigned long`. -/
def Options.parInterval (options : Options) (i : Nat) : BitVec 64 :=
  (options.threadInterval i).signExtend 64

/-- The interval of `timerthread`, in seconds and nanoseconds. -/
def interval (microseconds : BitVec 64) : Timespec where
  tvSec := microseconds.toNat / 1000000
  tvNsec := microseconds.toNat % 1000000 * 1000

/-- One interval later. -/
def later (interval next : Timespec) : Timespec :=
  tsnorm ⟨next.tvSec + interval.tvSec, next.tvNsec + interval.tvNsec⟩

/-- The advance of a cycle with the overruns of a cyclic timer. -/
def overrun (mode : Mode) (interval : Timespec) (overrunCount : Int) (next : Timespec) : Timespec :=
  let next : Timespec := ⟨next.tvSec + interval.tvSec, next.tvNsec + interval.tvNsec⟩
  if mode = .cyclic then
    tsnorm ⟨next.tvSec + overrunCount * interval.tvSec, next.tvNsec + overrunCount * interval.tvNsec⟩
  else tsnorm next

/-- The catch-up loop. There is no result when the rounds do not suffice. -/
def catchUp (now interval : Timespec) : Nat → Timespec → Option Timespec
  | 0, _ => none
  | rounds + 1, next =>
    if tsgreater now next then catchUp now interval rounds (later interval next) else some next

/-- The advance of `next` at the end of a cycle of `timerthread`. -/
def advance (rounds : Nat) (mode : Mode) (interval : Timespec) (overrunCount : Int)
    (now next : Timespec) : Option Timespec :=
  catchUp now interval rounds (overrun mode interval overrunCount next)

variable {now next step : Timespec} {mode : Mode} {overrunCount : Int}

/-- Normalization does not change the time. -/
@[simp] theorem tsnorm_nanoseconds (ts : Timespec) : (tsnorm ts).nanoseconds = ts.nanoseconds := by
  induction ts using tsnorm.induct with
  | case1 ts more ih =>
    rw [tsnorm, if_pos more, ih]
    simp only [Timespec.nanoseconds]
    omega
  | case2 ts done => rw [tsnorm, if_neg done]

/-- Normalization takes nanoseconds that are not negative to those of a part of a second. -/
theorem tsnorm_normal {ts : Timespec} (least : 0 ≤ ts.tvNsec) : (tsnorm ts).Normal := by
  induction ts using tsnorm.induct with
  | case1 ts more ih =>
    rw [tsnorm, if_pos more]
    exact ih (Int.sub_nonneg_of_le more)
  | case2 ts done =>
    rw [tsnorm, if_neg done]
    exact ⟨least, Int.not_le.mp done⟩

theorem tsnorm_eq_self (normal : next.Normal) : tsnorm next = next := by
  rw [tsnorm, if_neg (Int.not_le.mpr normal.2)]

/-- Normalized times are compared as their nanoseconds. -/
theorem tsgreater_iff (normal : now.Normal) (normal' : next.Normal) :
    tsgreater now next = true ↔ next.nanoseconds < now.nanoseconds := by
  simp only [tsgreater, Timespec.nanoseconds, Timespec.Normal, Bool.or_eq_true, Bool.and_eq_true,
    decide_eq_true_eq, beq_iff_eq] at *
  omega

theorem interval_nanoseconds (microseconds : BitVec 64) :
    (interval microseconds).nanoseconds = 1000 * microseconds.toNat := by
  simp only [interval, Timespec.nanoseconds]
  omega

theorem interval_normal (microseconds : BitVec 64) : (interval microseconds).Normal := by
  simp only [interval, Timespec.Normal]
  omega

theorem later_nanoseconds : (later step next).nanoseconds = next.nanoseconds + step.nanoseconds := by
  rw [later, tsnorm_nanoseconds]
  simp only [Timespec.nanoseconds]
  ring

theorem later_normal (normal : next.Normal) (least : 0 ≤ step.tvNsec) : (later step next).Normal :=
  tsnorm_normal (Int.add_nonneg normal.1 least)

/-- The intervals that the advance of a cycle adds. -/
def intervals (mode : Mode) (overrunCount : Int) : Int :=
  if mode = .cyclic then 1 + overrunCount else 1

theorem overrun_nanoseconds : (overrun mode step overrunCount next).nanoseconds =
    next.nanoseconds + intervals mode overrunCount * step.nanoseconds := by
  by_cases cyclic : mode = .cyclic
  · rw [overrun, if_pos cyclic, tsnorm_nanoseconds, intervals, if_pos cyclic]
    simp only [Timespec.nanoseconds]
    ring
  · rw [overrun, if_neg cyclic, tsnorm_nanoseconds, intervals, if_neg cyclic]
    simp only [Timespec.nanoseconds]
    ring

theorem overrun_normal (normal : next.Normal) (least : 0 ≤ step.tvNsec) (counted : -1 ≤ overrunCount) :
    (overrun mode step overrunCount next).Normal := by
  have product : 0 ≤ (1 + overrunCount) * step.tvNsec := Int.mul_nonneg (by omega) least
  rw [Int.add_mul, Int.one_mul] at product
  by_cases cyclic : mode = .cyclic
  · simp only [overrun, if_pos cyclic]
    exact tsnorm_normal (show 0 ≤ _ + _ + _ by have := normal.1; omega)
  · simp only [overrun, if_neg cyclic]
    exact tsnorm_normal (Int.add_nonneg normal.1 least)

/-- With an interval the loop reaches the time that was read, and passes it by no more than one
interval. -/
theorem catchUp_reaches (positive : 0 < step.nanoseconds) (least : 0 ≤ step.tvNsec)
    (normal : now.Normal) (rounds : Nat) (normal' : next.Normal)
    (enough : now.nanoseconds - next.nanoseconds ≤ rounds) :
    ∃ reached, catchUp now step (rounds + 1) next = some reached ∧ reached.Normal ∧
      now.nanoseconds ≤ reached.nanoseconds ∧
      step.nanoseconds ∣ reached.nanoseconds - next.nanoseconds ∧
      (tsgreater now next = true → reached.nanoseconds - now.nanoseconds ≤ step.nanoseconds) := by
  induction rounds generalizing next with
  | zero =>
    have done : ¬ tsgreater now next = true := by
      rw [tsgreater_iff normal normal']
      omega
    exact ⟨next, if_neg done, normal', by omega, by simp, fun more => absurd more done⟩
  | succ rounds ih =>
    by_cases more : tsgreater now next = true
    · have before := (tsgreater_iff normal normal').mp more
      have total := @later_nanoseconds next step
      obtain ⟨reached, found, whole, after, congruent, bound⟩ :=
        ih (later_normal normal' least) (by omega)
      refine ⟨reached, (if_pos more).trans found, whole, after, ?_, fun _ => ?_⟩
      · have sum := Int.dvd_add congruent (Int.dvd_refl step.nanoseconds)
        rwa [total, show reached.nanoseconds - (next.nanoseconds + step.nanoseconds) + step.nanoseconds =
          reached.nanoseconds - next.nanoseconds by omega] at sum
      · by_cases again : tsgreater now (later step next) = true
        · exact bound again
        · have stop : catchUp now step (rounds + 1) (later step next) = some (later step next) := if_neg again
          cases stop.symm.trans found
          omega
    · have done := more
      rw [tsgreater_iff normal normal'] at done
      exact ⟨next, if_neg more, normal', by omega, by simp, fun more' => absurd more' more⟩

/-- Without an interval the loop never ends. -/
theorem catchUp_never (still : step = ⟨0, 0⟩) (normal' : next.Normal)
    (more : tsgreater now next = true) (rounds : Nat) : catchUp now step rounds next = none := by
  have stays : later step next = next := by
    subst still
    simp only [later, Int.add_zero]
    exact tsnorm_eq_self normal'
  induction rounds with
  | zero => rfl
  | succ rounds ih => rw [catchUp, if_pos more, stays, ih]

/-- The advance ends with a normalized time that is a whole number of intervals after the
previous one, not before the time that was read, and by no more than one interval after it
when the loop has run. -/
def CatchesUp (mode : Mode) (interval : Timespec) (overrunCount : Int) (now next : Timespec) : Prop :=
  ∃ rounds reached, advance rounds mode interval overrunCount now next = some reached ∧ reached.Normal ∧
    now.nanoseconds ≤ reached.nanoseconds ∧
    interval.nanoseconds ∣ reached.nanoseconds - next.nanoseconds ∧
    (tsgreater now (overrun mode interval overrunCount next) = true →
      reached.nanoseconds - now.nanoseconds ≤ interval.nanoseconds)

/-- With an interval every advance catches up. -/
theorem catchesUp_of_positive (positive : 0 < step.nanoseconds) (least : 0 ≤ step.tvNsec)
    (normal : now.Normal) (normal' : next.Normal) (counted : -1 ≤ overrunCount) :
    CatchesUp mode step overrunCount now next := by
  obtain ⟨reached, found, whole, after, congruent, bound⟩ :=
    catchUp_reaches positive least normal _ (@overrun_normal next step mode overrunCount normal' least counted)
      (Int.self_le_toNat _)
  refine ⟨_, reached, found, whole, after, ?_, bound⟩
  have sum := Int.dvd_add congruent (Int.dvd_mul_left (intervals mode overrunCount) step.nanoseconds)
  rwa [overrun_nanoseconds, show ∀ a b c : Int, a - (b + c) + c = a - b by intros; omega] at sum

/-- A thread has no interval exactly when its option comes out as zero. -/
theorem parInterval_eq_zero_iff (options : Options) (i : Nat) :
    (options.parInterval i).toNat = 0 ↔ options.threadInterval i = 0 := by
  have same : (options.parInterval i).toInt = (options.threadInterval i).toInt :=
    BitVec.toInt_signExtend_of_le (by decide)
  constructor
  · intro zero
    have zero : options.parInterval i = 0#64 := BitVec.eq_of_toNat_eq zero
    rw [zero] at same
    exact BitVec.eq_of_toInt_eq same.symm
  · intro zero
    rw [Options.parInterval, zero]
    rfl

/-- A thread catches up exactly when it has an interval or is not behind. -/
theorem catches_up_iff (options : Options) (i : Nat) (normal : now.Normal) (normal' : next.Normal)
    (counted : -1 ≤ overrunCount) :
    CatchesUp mode (interval (options.parInterval i)) overrunCount now next ↔
      options.threadInterval i ≠ 0 ∨ tsgreater now next = false := by
  have total := interval_nanoseconds (options.parInterval i)
  have least := (interval_normal (options.parInterval i)).1
  by_cases zero : options.threadInterval i = 0
  · have still : interval (options.parInterval i) = ⟨0, 0⟩ := by
      simp only [interval, (parInterval_eq_zero_iff options i).mpr zero]
      rfl
    have stays : overrun mode ⟨0, 0⟩ overrunCount next = next := by
      by_cases cyclic : mode = .cyclic
      · simp only [overrun, if_pos cyclic, Int.mul_zero, Int.add_zero]
        exact tsnorm_eq_self normal'
      · simp only [overrun, if_neg cyclic, Int.add_zero]
        exact tsnorm_eq_self normal'
    rw [still]
    constructor
    · rintro ⟨rounds, reached, found, _⟩
      refine Or.inr (Bool.eq_false_iff.mpr fun more => ?_)
      rw [advance, stays, catchUp_never rfl normal' more] at found
      contradiction
    · rintro (nonzero | done)
      · exact absurd zero nonzero
      · have after := done
        rw [Bool.eq_false_iff, ne_eq, tsgreater_iff normal normal'] at after
        refine ⟨1, next, ?_, normal', by omega, by simp, fun more => ?_⟩
        · rw [advance, stays, catchUp, done]
          rfl
        · rw [stays, done] at more
          contradiction
  · have positive : (options.parInterval i).toNat ≠ 0 := fun none => zero ((parInterval_eq_zero_iff options i).mp none)
    exact iff_of_true (catchesUp_of_positive (by omega) least normal normal' counted) (Or.inl zero)

/-- A second behind with the default interval. -/
theorem catches_up_default : CatchesUp .cyclic (interval ((processOptions none none false).parInterval 0)) 2
    ⟨1, 0⟩ ⟨0, 0⟩ :=
  (catches_up_iff (processOptions none none false) 0 (by decide) (by decide) (by decide)).mpr (Or.inl (by decide))

/-- `-i 0`: the thread never leaves the loop once the time has moved on. -/
theorem zero_interval_hangs : ¬ CatchesUp .clockNanosleep
    (interval ((processOptions (some 0) none false).parInterval 0)) 0 ⟨0, 1⟩ ⟨0, 0⟩ := by
  rintro ⟨rounds, reached, found, _⟩
  have stays : overrun .clockNanosleep ⟨0, 0⟩ 0 ⟨0, 0⟩ = ⟨0, 0⟩ := by
    exact tsnorm_eq_self ⟨by decide, by decide⟩
  have still : interval ((processOptions (some 0) none false).parInterval 0) = ⟨0, 0⟩ := by decide
  rw [still, advance, stays, catchUp_never rfl ⟨by decide, by decide⟩ (by decide)] at found
  contradiction

end Rtems.Cyclictest
