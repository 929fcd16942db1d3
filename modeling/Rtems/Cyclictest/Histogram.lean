import Mathlib.Algebra.Order.Ring.Nat
import Mathlib.Data.Nat.Bitwise
import Rtems.Library.Tally

/-!
# The latency histograms

`hist_sample` counts a sample in its bucket. A sample behind the buckets is counted, its
event number is logged and the distance to the buckets is summed, unless the sum does not
grow.
-/

namespace Rtems.Cyclictest

/-- `struct histogram`; the arrays are zero beyond what is written. -/
structure Histogram where
  buckets : Nat → Nat
  width : Nat
  num : Nat
  events : Nat
  oflows : Option (Nat → Nat)
  oflowBufsize : Nat
  oflowCount : Nat
  oflowMagnitude : Nat

def histOverflow : Nat := 1
def histOverflowMag : Nat := 2
def histOverflowLog : Nat := 4

/-- `hist_init`. -/
def histInit (width num : Nat) : Histogram := ⟨fun _ => 0, width, num, 0, none, 0, 0, 0⟩

/-- `hist_init_oflow`. -/
def histInitOflow (h : Histogram) (num : Nat) : Histogram :=
  { h with oflowBufsize := num, oflows := some fun _ => 0 }

/-- A histogram, with a log of the given size if there is one. -/
def setUp (width num : Nat) (log : Option Nat) : Histogram :=
  log.elim (histInit width num) (histInitOflow (histInit width num))

/-- `hist_sample`: the histogram and what is reported. -/
def histSample (h : Histogram) (sample : Nat) : Histogram × Nat :=
  let bucket := sample / h.width
  let events := (h.events + 1) % 2 ^ 64
  if bucket < h.num then
    ({ h with
      events
      buckets := Function.update h.buckets bucket ((h.buckets bucket + 1) % 2 ^ 64) }, 0)
  else
    let magnitude := (h.oflowMagnitude + (bucket - h.num)) % 2 ^ 64
    let logged := h.oflowCount < h.oflowBufsize
    ({ h with
      events
      oflowMagnitude := if magnitude > h.oflowMagnitude then magnitude else h.oflowMagnitude
      oflows := if logged then h.oflows.map (Function.update · h.oflowCount h.events) else h.oflows
      oflowCount := (h.oflowCount + 1) % 2 ^ 64 },
      histOverflow ||| (if magnitude > h.oflowMagnitude then 0 else histOverflowMag) |||
        if h.oflows.isSome ∧ ¬ logged then histOverflowLog else 0)

/-- Calls of `hist_sample`: the histogram, and each sample with what was reported for it. -/
def histSamples (h : Histogram) (samples : List Nat) : Histogram × List (Nat × Nat) :=
  samples.foldl (fun state sample =>
    ((histSample state.1 sample).1, state.2 ++ [(sample, (histSample state.1 sample).2)])) (h, [])

/-- The numbers of the events whose sample is behind the buckets. -/
def overflowing (h : Histogram) (calls : List (Nat × Nat)) : List Nat :=
  (calls.zipIdx.filter fun event => h.num * h.width ≤ event.1.1).map (·.2)

/-- The histogram accounts for the samples of the calls. -/
structure Accounts (h : Histogram) (calls : List (Nat × Nat)) : Prop where
  events : h.events = ∑ i ∈ Finset.range h.num, h.buckets i + h.oflowCount
  bucket : ∀ i < h.num, h.buckets i =
    calls.countP fun call => i * h.width ≤ call.1 ∧ call.1 < (i + 1) * h.width
  log : ∀ oflows, h.oflows = some oflows →
    (List.range (min h.oflowCount h.oflowBufsize)).map oflows =
      (overflowing h calls).take (min h.oflowCount h.oflowBufsize)
  magnitude : h.oflowMagnitude =
    ((calls.filter fun call => h.num * h.width ≤ call.1 ∧ ¬ call.2.testBit 1).map
      fun call => call.1 / h.width - h.num).sum

/-- A magnitude overflow is reported exactly if the sum with the distance is out of range. -/
def ReportsMagnitude (h : Histogram) (sample : Nat) : Prop :=
  (histSample h sample).2.testBit 1 = true ↔
    2 ^ 64 ≤ h.oflowMagnitude + (sample / h.width - h.num)

/-- What is known behind fewer than `2 ^ 64` calls. -/
structure Counted (h : Histogram) (calls : List (Nat × Nat)) : Prop extends Accounts h calls where
  positive : 0 < h.width
  number : h.events = calls.length
  count : h.oflowCount = (overflowing h calls).length
  range : h.oflowMagnitude < 2 ^ 64

variable {h : Histogram} {sample : Nat}

theorem histSample_inside (inside : sample / h.width < h.num) : histSample h sample = ({ h with
      events := (h.events + 1) % 2 ^ 64
      buckets := Function.update h.buckets (sample / h.width)
        ((h.buckets (sample / h.width) + 1) % 2 ^ 64) }, 0) :=
  if_pos inside

/-- The overflow is reported also for a sample next to the buckets. -/
theorem reported_iff (h : Histogram) (sample : Nat) :
    (histSample h sample).2.testBit 1 = true ↔ h.num ≤ sample / h.width ∧
      (h.oflowMagnitude + (sample / h.width - h.num)) % 2 ^ 64 ≤ h.oflowMagnitude := by
  by_cases inside : sample / h.width < h.num
  · simp [histSample_inside inside, inside]
  · rw [histSample, if_neg inside]
    simp only [not_lt.mp inside]
    split <;> split <;> simp_all [histOverflow, histOverflowMag, histOverflowLog, Nat.testBit]

variable {calls : List (Nat × Nat)}

theorem reportsMagnitude_iff (counted : Counted h calls) (small : sample < 2 ^ 64) :
    ReportsMagnitude h sample ↔ ¬ (h.num * h.width ≤ sample ∧ sample < (h.num + 1) * h.width) := by
  have range := counted.range
  have quotient : sample / h.width < 2 ^ 64 := (Nat.div_le_self _ _).trans_lt small
  rw [ReportsMagnitude, reported_iff, ← Nat.le_div_iff_mul_le counted.positive,
    ← Nat.div_lt_iff_lt_mul counted.positive]
  omega

theorem overflowing_append (h : Histogram) (calls : List (Nat × Nat)) (call : Nat × Nat) :
    overflowing h (calls ++ [call]) = overflowing h calls ++
      if h.num * h.width ≤ call.1 then [calls.length] else [] := by
  rw [overflowing, List.zipIdx_append, List.filter_append, List.map_append, overflowing]
  congr 1
  by_cases above : h.num * h.width ≤ call.1 <;> simp [above]

variable {width : Nat}

theorem bounds_iff (pos : 0 < width) (sample i : Nat) :
    (i * width ≤ sample ∧ sample < (i + 1) * width) ↔ sample / width = i := by
  rw [← Nat.le_div_iff_mul_le pos, ← Nat.div_lt_iff_lt_mul pos]
  omega

/-- A call keeps the account, if the counters do not wrap. -/
theorem Counted.histSample (counted : Counted h calls) (small : sample < 2 ^ 64)
    (few : calls.length + 1 < 2 ^ 64) :
    Counted (histSample h sample).1 (calls ++ [(sample, (histSample h sample).2)]) := by
  have pos := counted.positive
  have reported := reported_iff h sample
  have events : (h.events + 1) % 2 ^ 64 = calls.length + 1 := by
    rw [counted.number, Nat.mod_eq_of_lt few]
  have above : h.num * h.width ≤ sample ↔ ¬ sample / h.width < h.num := by
    rw [← Nat.le_div_iff_mul_le pos, not_lt]
  have range := counted.range
  have count := counted.count
  have quotient : sample / h.width < 2 ^ 64 := (Nat.div_le_self _ _).trans_lt small
  have total := counted.number.symm.trans counted.events
  by_cases inside : sample / h.width < h.num
  · have most : h.buckets (sample / h.width) ≤ calls.length :=
      counted.bucket _ inside ▸ List.countP_le_length
    have next : (h.buckets (sample / h.width) + 1) % 2 ^ 64 = h.buckets (sample / h.width) + 1 :=
      Nat.mod_eq_of_lt (by omega)
    have same : overflowing h (calls ++ [(sample, 0)]) = overflowing h calls := by
      rw [overflowing_append, if_neg (above.not.mpr (not_not.mpr inside)), List.append_nil]
    rw [histSample_inside inside, events, next]
    refine ⟨⟨?_, fun i below => ?_, fun oflows log => ?_, ?_⟩, pos, ?_, ?_, range⟩
    · have mem := Finset.mem_range.mpr inside
      have split := Finset.sum_eq_add_sum_sdiff_singleton_of_mem mem h.buckets
      dsimp only
      rw [Finset.sum_update_of_mem mem]
      omega
    · rw [List.countP_append, ← counted.bucket i below]
      simp only [bounds_iff pos]
      grind
    · exact (counted.log oflows log).trans (congrArg (List.take _) same.symm)
    · simpa [above, inside] using counted.magnitude
    · simp
    · exact count.trans (congrArg List.length same.symm)
  · have report := reported
    rw [Cyclictest.histSample, if_neg inside] at report ⊢
    dsimp only at report ⊢
    rw [events, Nat.mod_eq_of_lt (by omega : h.oflowCount + 1 < 2 ^ 64)]
    generalize histOverflow ||| _ ||| _ = ret at report ⊢
    have behind : overflowing h (calls ++ [(sample, ret)]) =
        overflowing h calls ++ [calls.length] := by
      rw [overflowing_append, if_pos (above.mpr inside)]
    have length := congrArg List.length behind
    rw [List.length_append, List.length_singleton, ← count] at length
    refine ⟨⟨?_, fun i below => ?_, fun oflows log => ?_, ?_⟩, pos, ?_, length.symm, ?_⟩
    · dsimp only
      omega
    · rw [List.countP_append, ← counted.bucket i below]
      simp only [bounds_iff pos]
      grind
    · change _ = List.take _ (overflowing h (calls ++ [(sample, ret)]))
      dsimp only at log ⊢
      rw [behind]
      split at log
      · obtain ⟨before, known, rfl⟩ := Option.map_eq_some_iff.mp log
        have same := counted.log before known
        rw [min_eq_left (by omega), count, List.take_length] at same
        rw [min_eq_left (by omega), List.take_of_length_le (by simp [count]),
          List.range_succ, List.map_append, ← same, count, List.map_singleton,
          Function.update_self, counted.number]
        congr 1
        refine List.map_congr_left fun i member => Function.update_of_ne ?_ _ _
        exact (List.mem_range.mp member).ne
      · have same := counted.log oflows log
        rw [min_eq_right (by omega)] at same ⊢
        rw [same, List.take_append_of_le_length (by omega)]
    · have magnitude := counted.magnitude
      rw [List.filter_append, List.map_append, List.sum_append, ← magnitude]
      by_cases fits : (h.oflowMagnitude + (sample / h.width - h.num)) % 2 ^ 64 > h.oflowMagnitude
      · have kept : ¬ ret.testBit 1 = true := fun bad => fits.not_ge (report.mp bad).2
        rw [if_pos fits]
        simp [above, inside, kept]
        omega
      · have left : ret.testBit 1 = true := report.mpr ⟨not_lt.mp inside, not_lt.mp fits⟩
        rw [if_neg fits]
        simp [left]
    · simp
    · dsimp only
      split <;> omega

theorem histSamples_concat (h : Histogram) (samples : List Nat) (sample : Nat) :
    histSamples h (samples ++ [sample]) =
      ((histSample (histSamples h samples).1 sample).1, (histSamples h samples).2 ++
        [(sample, (histSample (histSamples h samples).1 sample).2)]) :=
  List.foldl_append

theorem histSample_fixed (h : Histogram) (sample : Nat) :
    (histSample h sample).1.width = h.width ∧ (histSample h sample).1.num = h.num := by
  rw [histSample]
  split <;> exact ⟨rfl, rfl⟩

theorem setUp_counted (pos : 0 < width) (num : Nat) (log : Option Nat) :
    Counted (setUp width num log) [] ∧
      (setUp width num log).width = width ∧ (setUp width num log).num = num := by
  have fresh : (0 : Nat) < 2 ^ 64 := Nat.two_pow_pos 64
  cases log <;> refine ⟨⟨⟨?_, fun _ _ => rfl, ?_, rfl⟩, pos, rfl, rfl, fresh⟩, rfl, rfl⟩ <;>
    simp [setUp, histInit, histInitOflow]

/-- Fewer than `2 ^ 64` calls are accounted for. -/
theorem histSamples_counted (pos : 0 < width) (num : Nat) (log : Option Nat)
    {samples : List Nat} (few : samples.length < 2 ^ 64)
    (small : ∀ sample ∈ samples, sample < 2 ^ 64) :
    (histSamples (setUp width num log) samples).2.length = samples.length ∧
    Counted (histSamples (setUp width num log) samples).1
      (histSamples (setUp width num log) samples).2 ∧
    (histSamples (setUp width num log) samples).1.width = width ∧
    (histSamples (setUp width num log) samples).1.num = num := by
  induction samples using List.reverseRecOn with
  | nil => exact ⟨rfl, setUp_counted pos num log⟩
  | append_singleton samples sample ih =>
    rw [List.length_append, List.length_singleton] at few
    obtain ⟨length, counted, same, buckets⟩ := ih (by omega) fun other member =>
      small other (List.mem_append_left _ member)
    have fixed := histSample_fixed (histSamples (setUp width num log) samples).1 sample
    rw [histSamples_concat]
    refine ⟨by simp [length], counted.histSample (small sample (by simp)) (by omega), ?_⟩
    exact ⟨fixed.1.trans same, fixed.2.trans buckets⟩

/-- The account holds behind each of the calls, and each call reports a magnitude overflow
exactly if there is one. -/
def AccountsFor (width num : Nat) (log : Option Nat) (samples : List Nat) : Prop :=
  ∀ done, done <+: samples →
    Accounts (histSamples (setUp width num log) done).1
      (histSamples (setUp width num log) done).2 ∧
    ∀ sample, done ++ [sample] <+: samples →
      ReportsMagnitude (histSamples (setUp width num log) done).1 sample

/-- The samples are accounted for exactly if none is in the first interval behind the buckets,
where the distance is zero. -/
theorem histogram_accounts_iff {width : Nat} (positive : 0 < width) (num : Nat)
    (log : Option Nat) (samples : List Nat) (few : samples.length < 2 ^ 64)
    (small : ∀ sample ∈ samples, sample < 2 ^ 64) :
    AccountsFor width num log samples ↔
      ∀ sample ∈ samples, ¬ (num * width ≤ sample ∧ sample < (num + 1) * width) := by
  have run (done : List Nat) (part : done <+: samples) := histSamples_counted positive num log
    (part.length_le.trans_lt few) fun sample member => small sample (part.subset member)
  have report (done : List Nat) (sample : Nat) (part : done ++ [sample] <+: samples) :
      ReportsMagnitude (histSamples (setUp width num log) done).1 sample ↔
        ¬ (num * width ≤ sample ∧ sample < (num + 1) * width) := by
    obtain ⟨-, counted, same, buckets⟩ := run done ((List.prefix_append _ _).trans part)
    rw [reportsMagnitude_iff counted (small sample (part.subset (by simp))), same, buckets]
  constructor
  · intro accounts sample member
    obtain ⟨before, after, rfl⟩ := List.append_of_mem member
    have part : before ++ [sample] <+: before ++ sample :: after := ⟨after, by simp⟩
    exact (report before sample part).mp
      ((accounts before (List.prefix_append _ _)).2 sample part)
  · intro outside done part
    refine ⟨(run done part).2.1.toAccounts, fun sample next => (report done sample next).mpr ?_⟩
    exact outside sample (next.subset (by simp))

theorem histogram_accounts_three : AccountsFor 10 2 (some 1) [5, 34, 19] :=
  (histogram_accounts_iff (by decide) 2 (some 1) [5, 34, 19] (by decide) (by decide)).mpr
    (by decide)

/-- A sample next to the buckets is reported as a magnitude overflow. -/
theorem histogram_reports_no_overflow :
    ¬ ∀ (width num : Nat) (log : Option Nat) (samples : List Nat), 0 < width →
      samples.length < 2 ^ 64 → (∀ sample ∈ samples, sample < 2 ^ 64) →
        AccountsFor width num log samples := by
  intro claim
  have account := claim 1 1 none [1] (by decide) (by decide) (by decide) [] List.nil_prefix
  exact absurd ((account.2 1 (List.prefix_refl _)).mp (by decide)) (by decide)

end Rtems.Cyclictest
