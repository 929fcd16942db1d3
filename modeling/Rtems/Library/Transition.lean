import Mathlib.Data.List.Basic

/-!
# Runs of a partial step function

A component is a type of states, a set of initial states and a step function that
takes an input and may refuse it. A trace is a state together with the states that
were passed on the way to it, the latest first; a condition on the inputs that are
fed to it restricts the traces. Safety properties are proved once for the initial
states and once for a step.
-/

namespace Transition

universe u v
variable {σ : Type u} {ι : Type v} {initial : σ → Prop} {permitted : σ → ι → Prop}
  {step : σ → ι → Option σ}

/-- A run to a state, with the states before it. Every step is permitted in the
state in which it is taken. -/
inductive Trace (initial : σ → Prop) (permitted : σ → ι → Prop) (step : σ → ι → Option σ) :
    List σ → σ → Prop where
  | start (state : σ) (begins : initial state) : Trace initial permitted step [] state
  | step (past : List σ) (state next : σ) (input : ι)
      (run : Trace initial permitted step past state) (allowed : permitted state input)
      (taken : step state input = some next) : Trace initial permitted step (state :: past) next

variable {st : σ}
variable {past : List σ} {state : σ}

/-- A property of the initial states that every permitted step keeps holds at the
end of every run. -/
theorem Trace.invariant (property : σ → Prop) (base : ∀ st, initial st → property st) (keep
      : ∀ st input next, property st → permitted st input → step st input = some next →
      property next) (run : Trace initial permitted step past st) : property st := by
  induction run with
  | start st begins => exact base st begins
  | step past st next input run allowed taken ih =>
    exact keep st input next ih allowed taken

/-- A run is still one if more steps are permitted. -/
theorem Trace.mono {other : σ → ι → Prop} (more : ∀ st input, permitted st input →
    other st input) (run : Trace initial permitted step past st) :
    Trace initial other step past st := by
  induction run with
  | start st begins => exact .start st begins
  | step past st next input run allowed taken ih =>
    exact .step past st next input ih (more st input allowed) taken

/-- Feeding a list of inputs. -/
def feed (step : σ → ι → Option σ) : σ → List ι → Option σ
  | state, [] => some state
  | state, input :: rest => (step state input).bind fun next => feed step next rest

/-- Every input is permitted where it is fed. -/
def Allowed (permitted : σ → ι → Prop) (step : σ → ι → Option σ) : σ → List ι → Prop
  | _, [] => True
  | state, input :: rest =>
      permitted state input ∧
        match step state input with
        | none => True
        | some next => Allowed permitted step next rest

instance Allowed.decidable [∀ state input, Decidable (permitted state input)] (state : σ)
    (inputs : List ι) : Decidable (Allowed permitted step state inputs) :=
  match inputs with
  | [] => .isTrue trivial
  | input :: rest =>
    have : Decidable (match step state input with
        | none => True
        | some next => Allowed permitted step next rest) :=
      match step state input with
      | none => .isTrue trivial
      | some next => Allowed.decidable next rest
    inferInstanceAs (Decidable (_ ∧ _))

/-- Permitted inputs that are all accepted make a run. -/
theorem Trace.feed (run : Trace initial permitted step past st)
    (inputs : List ι) (last : σ) (allowed : Allowed permitted step st inputs)
    (fed : Transition.feed step st inputs = some last) :
    ∃ past, Trace initial permitted step past last := by
  induction inputs generalizing past st with
  | nil =>
    cases fed
    exact ⟨past, run⟩
  | cons input rest ih =>
    obtain ⟨next, taken, fed⟩ := Option.bind_eq_some_iff.mp fed
    obtain ⟨first, later⟩ := allowed
    rw [taken] at later
    exact ih (.step past st next input run first taken) later fed

/-- What is observed after feeding permitted inputs to an initial state is observed at
the end of a run. -/
theorem Trace.observe {β : Type*} (permitted : σ → ι → Prop) (step : σ → ι → Option σ) (st : σ)
    (begins : initial st) (inputs : List ι)
    (view : σ → β) (value : β) (allowed : Allowed permitted step st inputs)
    (observed : (Transition.feed step st inputs).map view = some value) :
    ∃ past last, Trace initial permitted step past last ∧ view last = value := by
  obtain ⟨last, fed, seen⟩ := Option.map_eq_some_iff.mp observed
  have start : Trace initial permitted step [] st := .start st begins
  obtain ⟨past, run⟩ := start.feed inputs last allowed fed
  exact ⟨past, last, run, seen⟩

end Transition
