import Rtems.UserExtensions.Iterate

/-!
# What an iteration visits

A run follows a cursor in the list of the extensions. What stays on the list is visited once and in
order, whatever comes and goes meanwhile.
-/

namespace Rtems.UserExtensions

open LinkRing

universe u v

variable {ε : Type u} {ρ : Type v} [DecidableEq ε] [DecidableEq ρ] {system : System ε ρ} {run : ρ}
  {ext : ε} {cursor : Cursor ε}

/-- How far a run has come: the extensions that stay and were pending for one cursor were visited, or
they are pending for the other one. No extension is pending when the run has ended. -/
structure Follows (run : ρ) (stays : ε → Bool) (pending : List ε) (visits : List (ρ × Node ε))
    (next : System ε ρ) (cursor : Cursor ε) : Prop where
  split : pending.filter stays = (visited run visits).filter stays ++ cursor.pending.filter stays
  placed : next.running run = true → Placed next.members (next.control.iterator run) cursor
  ended : next.running run = false → cursor.pending = []

/-- A run that goes on follows its cursor. -/
theorem Listed.follows (listed : Listed system) (mem : run ∈ system.control.registry) (others : ∀
      other, other ≠ run → (other ∈ system.control.registry ↔ system.running other = true))
    (placed : Placed system.members (system.control.iterator run) cursor) (stays : ε → Bool) :
    ∃ cursor', Follows run stays cursor.pending (system.goOn run).1.toList (system.goOn run).2 cursor' := by
  obtain ⟨_, members, _, ⟨pending, none, ended⟩ | ⟨ext, rest, pending, some, busy, here⟩⟩ :=
    listed.goOn mem others placed
  · refine ⟨cursor, ?_, fun busy => ?_, fun _ => pending⟩
    · rw [none]
      rfl
    · rw [ended] at busy
      cases busy
  · refine ⟨_, ?_, fun _ => members ▸ here, fun ended => ?_⟩
    · rw [some, pending]
      have one : visited run (Option.toList (.some (run, Node.extension ext))) = [ext] := by
        simp [visited, Node.extension?]
      rw [one, ← List.filter_append]
      rfl
    · rw [busy] at ended
      cases ended

/-- The visits of another run. -/
theorem Listed.visited_other (listed : Listed system) {other : ρ} (distinct : other ≠ run)
    (mem : run ∈ system.control.registry) (others : ∀ other, other ≠ run → (other ∈
      system.control.registry ↔ system.running other = true)) :
    visited other (system.goOn run).1.toList = [] ∧
      (system.goOn run).2.control.iterator other = system.control.iterator other ∧
      (system.goOn run).2.running other = system.running other ∧
      (system.goOn run).2.members = system.members := by
  obtain ⟨cursor, placed⟩ := listed.placed run mem
  obtain ⟨_, members, frame, ⟨_, none, _⟩ | ⟨ext, rest, _, some, _⟩⟩ :=
    listed.goOn mem others placed
  · exact ⟨by rw [none]; rfl, (frame other distinct).1, (frame other distinct).2, members⟩
  · refine ⟨?_, (frame other distinct).1, (frame other distinct).2, members⟩
    rw [some]
    simp [visited, Ne.symm distinct]

variable {step : Step ε ρ}

section

variable (sound : Sound system) (permitted : system.Permitted step)
include sound permitted

/-- A run follows its cursor in every step. -/
theorem Sound.follows (busy : system.running run = true)
    (placed : Placed system.members (system.control.iterator run) cursor) {stays : ε → Bool}
    (present : ∀ ext, stays ext = true → ext ∈ system.members)
    (kept : ∀ ext, step = .removeSet ext → stays ext = false) :
    ∃ cursor', Follows run stays cursor.pending (system.step step).1.toList (system.step step).2
      cursor' := by
  have idle : ∀ {next : System ε ρ}, next.running run = system.running run →
      next.running run = false → cursor.pending = [] := by
    intro next same ended
    rw [same, busy] at ended
    cases ended
  cases step with
  | addSet ext =>
    have comes : stays ext = false := by
      rw [← Bool.not_eq_true]
      exact fun there => permitted (present ext there)
    obtain ⟨cursor', added, same⟩ := placed.add ext
    refine ⟨cursor', (same stays comes).symm, fun _ => added, fun ended => ?_⟩
    rw [show (system.step (.addSet ext)).2.running run = system.running run from rfl, busy] at ended
    cases ended
  | removeSet ext =>
    refine ⟨cursor.remove ext, (Cursor.filter_remove (kept ext rfl)).symm, fun _ => ?_,
      fun ended => ?_⟩
    · have moved := registryUpdate_iterator sound.registered (Node.extension ext) run
      rw [if_pos ((sound.running run).mpr busy)] at moved
      dsimp only [System.step, Control.removeSet]
      rw [moved]
      exact placed.remove sound.path sound.nodup ext
    · rw [show (system.step (.removeSet ext)).2.running run = system.running run from rfl,
        busy] at ended
      cases ended
  | enter entered dir =>
    have distinct : run ≠ entered := by
      rintro rfl
      rw [show system.running run = false from permitted] at busy
      cases busy
    obtain ⟨listed, mem, others, _⟩ := sound.enter permitted dir
    obtain ⟨none, iterator, running, members⟩ := listed.visited_other distinct mem others
    refine ⟨cursor, ?_, fun _ => ?_, idle running⟩
    · rw [show visited run (system.step (.enter entered dir)).1.toList = [] from none]
      rfl
    · rw [show (system.step (.enter entered dir)).2.members = system.members from members,
        show (system.step (.enter entered dir)).2.control.iterator run =
          system.control.iterator run from iterator.trans (Function.update_of_ne distinct _ _)]
      exact placed
  | resume resumed =>
    have mem := (sound.running resumed).mpr permitted
    by_cases same : run = resumed
    · subst same
      exact sound.toListed.follows mem (fun other _ => sound.running other) placed stays
    · obtain ⟨none, iterator, running, members⟩ :=
        sound.toListed.visited_other same mem fun other _ => sound.running other
      refine ⟨cursor, ?_, fun _ => ?_, idle running⟩
      · rw [show visited run (system.step (.resume resumed)).1.toList = [] from none]
        rfl
      · rw [show (system.step (.resume resumed)).2.members = system.members from members,
          show (system.step (.resume resumed)).2.control.iterator run =
            system.control.iterator run from iterator]
        exact placed

/-- An extension of the chain is still there if it is not removed. -/
theorem members_step (mem : ext ∈ system.members) (kept : step ≠ .removeSet ext) :
    ext ∈ (system.step step).2.members := by
  cases step with
  | addSet added => exact List.mem_append_left _ mem
  | removeSet removed =>
    refine List.mem_filter.mpr ⟨mem, decide_eq_true ?_⟩
    rintro rfl
    exact kept rfl
  | enter entered dir =>
    obtain ⟨listed, inside, others, start⟩ := sound.enter permitted dir
    exact (listed.goOn inside others start).2.1 ▸ mem
  | resume resumed =>
    have inside := (sound.running resumed).mpr permitted
    obtain ⟨cursor, placed⟩ := sound.placed resumed inside
    exact (sound.toListed.goOn inside (fun other _ => sound.running other) placed).2.1 ▸ mem

/-- A run that is not in progress visits nothing until it is entered. -/
theorem Sound.idle (ended : system.running run = false) (entered : ∀ dir, step ≠ .enter run dir) :
    visited run (system.step step).1.toList = [] ∧ (system.step step).2.running run = false := by
  cases step with
  | addSet | removeSet => exact ⟨rfl, ended⟩
  | enter other dir =>
    have distinct : run ≠ other := by
      rintro rfl
      exact entered dir rfl
    obtain ⟨listed, mem, others, _⟩ := sound.enter permitted dir
    obtain ⟨none, _, running, _⟩ := listed.visited_other distinct mem others
    exact ⟨none, running.trans ended⟩
  | resume other =>
    have distinct : run ≠ other := by
      rintro rfl
      rw [show system.running run = true from permitted] at ended
      cases ended
    obtain ⟨none, _, running, _⟩ := sound.toListed.visited_other distinct
      ((sound.running other).mpr permitted) fun other _ => sound.running other
    exact ⟨none, running.trans ended⟩

end

omit [DecidableEq ε] in
theorem visited_append (run : ρ) (first second : List (ρ × Node ε)) :
    visited run (first ++ second) = visited run first ++ visited run second :=
  List.filterMap_append

section

variable (sound : Sound system) (steps : List (Step ε ρ)) (permitted : system.AllPermitted steps)
include sound permitted

/-- The steps keep the list sound. -/
theorem Sound.runs : Sound (system.runs steps).2 := by
  induction steps generalizing system with
  | nil => exact sound
  | cons step steps ih =>
    exact ih (sound.step permitted.1) permitted.2

theorem Sound.idle_runs (ended : system.running run = false)
    (entered : ∀ dir, .enter run dir ∉ steps) :
    visited run (system.runs steps).1 = [] ∧ (system.runs steps).2.running run = false := by
  induction steps generalizing system with
  | nil => exact ⟨rfl, ended⟩
  | cons step steps ih =>
    obtain ⟨none, still⟩ := sound.idle permitted.1 ended fun dir same =>
      entered dir (same ▸ List.mem_cons_self)
    obtain ⟨rest, last⟩ := ih (sound.step permitted.1) permitted.2 still
      fun dir mem => entered dir (List.mem_cons_of_mem step mem)
    refine ⟨?_, last⟩
    rw [System.runs]
    rw [visited_append, none, rest, List.nil_append]

/-- A run follows its cursor until it ends, whatever happens to the list meanwhile. -/
theorem Sound.follows_runs (placed : system.running run = true → Placed
      system.members (system.control.iterator run) cursor)
    (ended : system.running run = false → cursor.pending = []) {stays : ε → Bool}
    (present : ∀ ext, stays ext = true → ext ∈ system.members)
    (kept : ∀ ext, .removeSet ext ∈ steps → stays ext = false)
    (entered : ∀ dir, .enter run dir ∉ steps) :
    ∃ cursor', Follows run stays cursor.pending (system.runs steps).1 (system.runs steps).2 cursor' := by
  cases busy : system.running run with
  | false =>
    obtain ⟨none, last⟩ := sound.idle_runs steps permitted busy entered
    refine ⟨cursor, ?_, fun again => ?_, fun _ => ended busy⟩
    · rw [none]
      rfl
    · rw [last] at again
      cases again
  | true =>
    induction steps generalizing system cursor with
    | nil => exact ⟨cursor, rfl, placed, ended⟩
    | cons step steps ih =>
      obtain ⟨middle, here⟩ := sound.follows permitted.1 busy (placed busy) present
        fun ext same => kept ext (same ▸ List.mem_cons_self)
      have unentered : ∀ dir, .enter run dir ∉ steps := fun dir mem =>
        entered dir (List.mem_cons_of_mem step mem)
      have later : ∃ cursor', Follows run stays middle.pending ((system.step step).2.runs steps).1
          ((system.step step).2.runs steps).2 cursor' := by
        cases still : (system.step step).2.running run with
        | true =>
          apply ih (sound.step permitted.1) permitted.2 here.placed here.ended
          · intro ext there
            apply members_step sound permitted.1 (present ext there)
            rintro rfl
            rw [kept ext List.mem_cons_self] at there
            cases there
          · exact fun ext mem => kept ext (List.mem_cons_of_mem step mem)
          · exact unentered
          · exact still
        | false =>
          obtain ⟨none, last⟩ :=
            (sound.step permitted.1).idle_runs steps permitted.2 still unentered
          refine ⟨middle, ?_, fun again => ?_, fun _ => here.ended still⟩
          · rw [none]
            rfl
          · rw [last] at again
            cases again
      obtain ⟨cursor', later⟩ := later
      refine ⟨cursor', ?_, later.placed, later.ended⟩
      rw [System.runs]
      rw [visited_append, List.filter_append, List.append_assoc, ← later.split]
      exact here.split

end

/-- The extensions that are not removed by the steps. -/
def Stays (steps : List (Step ε ρ)) (extension : ε) : Bool := decide (.removeSet extension ∉ steps)

/-- What the registry of iterators gives to the runs. -/
structure Tolerant (system : System ε ρ) : Prop where
  /-- The chain holds the extensions that were added and not removed. -/
  chain : Path system.control.active .head (nodesOf system.members) .tail
  /-- The iterators stand on the head, the tail or an extension of the chain. -/
  position : ∀ run ∈ system.control.registry, (system.control.iterator run).position = .head ∨
    (system.control.iterator run).position = .tail ∨
      ∃ extension ∈ system.members, (system.control.iterator run).position = .extension extension
  /-- The registry holds the runs in progress, each of them once. -/
  registered : system.control.registry.Nodup
  running : ∀ run, run ∈ system.control.registry ↔ system.running run = true
  /-- An extension that is visited is on the chain. -/
  visit : ∀ step, system.Permitted step → ∀ visit ∈ (system.step step).1,
    ∃ extension ∈ (system.step step).2.members, visit.2 = .extension extension
  /-- A run visits the extensions that stay, in the order of its direction; at its end it has visited
  all of them. -/
  once : ∀ run direction steps, system.AllPermitted (.enter run direction :: steps) →
    (∀ direction, .enter run direction ∉ steps) →
      ∃ rest, (direction.order system.members).filter (Stays steps) =
          (visited run (system.runs (.enter run direction :: steps)).1).filter
              (fun extension => decide (extension ∈ system.members) && Stays steps extension) ++ rest ∧
        ((system.runs (.enter run direction :: steps)).2.running run = false → rest = [])
  /-- A forward run that has not ended visits an extension that is added, and it does so once. -/
  added : ∀ run extension steps, system.running run = true →
    (system.control.iterator run).direction = .forward →
    system.AllPermitted (.addSet extension :: steps) → (∀ direction, .enter run direction ∉ steps) →
    .removeSet extension ∉ steps →
    (system.runs (.addSet extension :: steps)).2.running run = false →
      (visited run (system.runs (.addSet extension :: steps)).1).count extension = 1

omit [DecidableEq ε] [DecidableEq ρ] in
theorem Sound.position (sound : Sound system) (mem : run ∈ system.control.registry) :
    (system.control.iterator run).position = .head ∨ (system.control.iterator run).position = .tail ∨
      ∃ ext ∈ system.members, (system.control.iterator run).position = .extension ext := by
  obtain ⟨cursor, placed⟩ := sound.placed run mem
  rw [placed.position]
  cases last : cursor.passed.getLast? with
  | none =>
    cases (system.control.iterator run).direction with
    | forward => exact Or.inl rfl
    | backward => exact Or.inr (Or.inl rfl)
  | some ext =>
    refine Or.inr (Or.inr ⟨ext, ?_, rfl⟩)
    have inside : ext ∈ cursor.items := List.mem_append_left _ (List.mem_of_mem_getLast? last)
    rw [placed.items] at inside
    cases dir : (system.control.iterator run).direction with
    | forward =>
      rw [dir] at inside
      exact inside
    | backward =>
      rw [dir] at inside
      exact List.mem_reverse.mp inside

variable {steps : List (Step ε ρ)}

/-- A run from its start. -/
theorem Sound.once (sound : Sound system) {dir : Direction}
    (permitted : system.AllPermitted (.enter run dir :: steps))
    (entered : ∀ dir, .enter run dir ∉ steps) :
    ∃ rest, (dir.order system.members).filter (Stays steps) =
        (visited run (system.runs (.enter run dir :: steps)).1).filter
            (fun ext => decide (ext ∈ system.members) && Stays steps ext) ++ rest ∧
      ((system.runs (.enter run dir :: steps)).2.running run = false → rest = []) := by
  obtain ⟨listed, mem, others, start⟩ := sound.enter permitted.1 dir
  generalize chosen : (fun ext => decide (ext ∈ system.members) && Stays steps ext) = stays
  have chosen : ∀ ext, stays ext = (decide (ext ∈ system.members) && Stays steps ext) :=
    fun ext => (congrFun chosen ext).symm
  obtain ⟨middle, here⟩ := listed.follows mem others start stays
  have members : (system.step (.enter run dir)).2.members = system.members :=
    (listed.goOn mem others start).2.1
  have present : ∀ ext, stays ext = true → ext ∈ (system.step (.enter run dir)).2.members := by
    intro ext there
    rw [members]
    rw [chosen, Bool.and_eq_true, decide_eq_true_iff] at there
    exact there.1
  have kept : ∀ ext, .removeSet ext ∈ steps → stays ext = false := by
    intro ext removed
    rw [chosen, Stays, decide_eq_false (Classical.not_not.mpr removed), Bool.and_false]
  obtain ⟨cursor, later⟩ := (sound.step permitted.1).follows_runs steps permitted.2 here.placed here.ended
    present kept entered
  refine ⟨cursor.pending.filter stays, ?_, fun ended => by rw [later.ended ended, List.filter_nil]⟩
  have all : (dir.order system.members).filter (Stays steps) =
      (dir.order system.members).filter stays := by
    apply List.filter_congr
    intro ext inside
    have there : ext ∈ system.members := by
      cases dir with
      | forward => exact inside
      | backward => exact List.mem_reverse.mp inside
    rw [chosen, decide_eq_true there, Bool.true_and]
  rw [all, System.runs]
  rw [visited_append, List.filter_append, List.append_assoc, ← later.split]
  exact here.split

/-- A run and an extension that is added before it ends. -/
theorem Sound.added (sound : Sound system) (busy : system.running run = true)
    (forward : (system.control.iterator run).direction = .forward)
    (permitted : system.AllPermitted (.addSet ext :: steps))
    (entered : ∀ dir, .enter run dir ∉ steps) (kept : .removeSet ext ∉ steps)
    (ended : (system.runs (.addSet ext :: steps)).2.running run = false) :
    (visited run (system.runs (.addSet ext :: steps)).1).count ext = 1 := by
  have fresh : ext ∉ system.members := permitted.1
  obtain ⟨cursor, placed⟩ := sound.placed run ((sound.running run).mpr busy)
  have next : Placed (system.members ++ [ext]) (system.control.iterator run)
      (cursor.append ext) := by
    refine ⟨?_, placed.position⟩
    have items := placed.items
    rw [forward] at items ⊢
    rw [Cursor.items_append, items]
    rfl
  have idle : (system.step (.addSet ext)).2.running run = false →
      (cursor.append ext).pending = [] := by
    intro idle
    rw [show (system.step (.addSet ext)).2.running run = system.running run from rfl, busy] at idle
    cases idle
  have present : ∀ other, decide (other = ext) = true →
      other ∈ (system.step (.addSet ext)).2.members := by
    intro other same
    rw [of_decide_eq_true same]
    exact List.mem_append_right _ (List.mem_singleton.mpr rfl)
  have stays : ∀ other, .removeSet other ∈ steps → decide (other = ext) = false := by
    intro other removed
    apply decide_eq_false
    rintro rfl
    exact kept removed
  obtain ⟨last, later⟩ := (sound.step permitted.1).follows_runs steps permitted.2 (fun _ => next) idle
    present stays entered
  have split := later.split
  rw [later.ended ended, List.filter_nil, List.append_nil] at split
  have none : cursor.pending.filter (fun other => decide (other = ext)) = [] := by
    rw [List.filter_eq_nil_iff]
    intro other inside same
    rw [of_decide_eq_true same] at inside
    have items := placed.items
    rw [forward] at items
    exact fresh ((show cursor.items = system.members from items) ▸ List.mem_append_right _ inside)
  rw [Cursor.append, List.filter_append, none, List.filter_cons_of_pos (by simp), List.filter_nil,
    List.nil_append] at split
  have one := congrArg List.length split
  rw [List.count, List.countP_eq_length_filter]
  exact one.symm

theorem Sound.tolerant (sound : Sound system) : Tolerant system where
  chain := sound.path
  position := fun _ mem => sound.position mem
  registered := sound.registered
  running := sound.running
  visit := fun _ permitted visit made => sound.visit permitted visit made
  once := fun _ _ _ permitted entered => sound.once permitted entered
  added := fun _ _ _ busy forward permitted entered kept ended =>
    sound.added busy forward permitted entered kept ended

omit [DecidableEq ε] [DecidableEq ρ] in
theorem System.Initial.sound (initial : system.Initial) : Sound system where
  path := by
    rw [initial.members]
    exact initial.chain
  nodup := initial.members ▸ List.nodup_nil
  registered := initial.registry ▸ List.nodup_nil
  placed := by
    intro run mem
    rw [initial.registry] at mem
    cases mem
  running := by
    intro run
    rw [initial.registry, initial.running run]
    exact iff_of_false List.not_mem_nil (by decide)

/-- Iterations tolerate every change of the list: this holds in every state that is reached. -/
theorem runs_tolerate_changes (initial : system.Initial) (steps : List (Step ε ρ))
    (permitted : system.AllPermitted steps) : Tolerant (system.runs steps).2 :=
  (initial.sound.runs steps permitted).tolerant

/-- Without extensions. -/
def empty : System Nat Nat :=
  { control :=
      { active := ⟨fun _ => .tail, fun _ => .head⟩, registry := []
        iterator := fun _ => ⟨.forward, .head⟩ }
    running := fun _ => false
    members := [] }

theorem empty_initial : empty.Initial := ⟨⟨rfl, rfl⟩, rfl, fun _ => rfl, rfl⟩

/-- Two runs, one of them backward, while the extension that both visit is removed. -/
def emptySteps : List (Step Nat Nat) :=
  [.addSet 0, .addSet 1, .enter 0 .forward, .resume 0, .enter 1 .backward, .removeSet 1, .resume 1,
    .addSet 2, .resume 0, .resume 0]

theorem runs_tolerate_changes_empty : Tolerant (empty.runs emptySteps).2 :=
  runs_tolerate_changes empty_initial emptySteps (by decide)

example : (empty.runs emptySteps).1 =
    [(0, .extension 0), (0, .extension 1), (1, .extension 1), (1, .extension 0), (0, .extension 2)] := by
  decide

end Rtems.UserExtensions
