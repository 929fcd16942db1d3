import Rtems.Classic.Timer

/-!
# The places of a timer

A timer is in the tree of a processor, in the chain of the timer server or in neither, and the state of its
watchdog says where it is.
-/

namespace Rtems.Timer

universe u v w x
variable {T : Type u} {C : Type v} {R : Type w} {U : Type x}

/-- The state of the watchdog of a timer says where it is, and a watchdog that waits for the adaptor of the
timer server is not yet anywhere else. -/
structure PlacedAt (system : System T C R U) (timer : T) : Prop where
  tree : timer ∈ system.tree ↔ (system.timer timer).state = .scheduled
  pending : timer ∈ system.pending ↔ (system.timer timer).state = .pending
  served : ∀ call ∈ system.calls, call.timer = timer → call.adaptor = .server →
    (system.timer timer).state = .inactive ∧ call.fire = (system.timer timer).fire ∧
      (system.timer timer).theClass.isOnTask = true
  onTask : (system.timer timer).state = .pending → (system.timer timer).theClass.isOnTask = true
  adaptor : (system.timer timer).theClass ≠ .dormant →
    (system.timer timer).adaptor = (system.timer timer).theClass.adaptor
  fired : (system.timer timer).state = .scheduled → (system.timer timer).theClass ≠ .dormant

/-- Every timer is in its place, and once there. -/
structure Placed (system : System T C R U) : Prop where
  each : ∀ timer, PlacedAt system timer
  treeOnce : system.tree.Nodup
  pendingOnce : system.pending.Nodup

variable {timer : T}

variable {sys : System T C R U}

variable {next : System T C R U}

/-- A timer that a section does not touch stays where it is. -/
theorem PlacedAt.untouched (placed : PlacedAt sys timer)
    (same : next.timer timer = sys.timer timer) (tree : timer ∈ next.tree ↔ timer ∈ sys.tree)
    (pending : timer ∈ next.pending ↔ timer ∈ sys.pending)
    (calls : ∀ call ∈ next.calls, call.timer = timer → call ∈ sys.calls) :
    PlacedAt next timer := by
  constructor
  case tree => rw [tree, same, placed.tree]
  case pending => rw [pending, same, placed.pending]
  case served =>
    intro call mem its
    rw [same]
    exact placed.served call (calls call mem its) its
  case onTask => rw [same]; exact placed.onTask
  case adaptor => rw [same]; exact placed.adaptor
  case fired => rw [same]; exact placed.fired

/-- A timer that a section made inactive and took from where it was. -/
theorem PlacedAt.inactive (placed : PlacedAt sys timer)
    (ctl : next.timer timer = { sys.timer timer with state := .inactive })
    (tree : timer ∉ next.tree) (pending : timer ∉ next.pending)
    (calls : ∀ call ∈ next.calls, call.timer = timer → call.adaptor = .server → call.fire = (sys.timer timer).fire ∧ (sys.timer timer).theClass.isOnTask = true)
    :
    PlacedAt next timer := by
  constructor
  case tree => simp [ctl, tree]
  case pending => simp [ctl, pending]
  case served =>
    intro call mem its server
    rw [ctl]
    exact ⟨rfl, calls call mem its server⟩
  case onTask => simp [ctl]
  case adaptor =>
    rw [ctl]
    exact placed.adaptor
  case fired => simp [ctl]

theorem Placed.initial (initial : Initial sys) : Placed sys := by
  obtain ⟨timers, tree, calls, pending, _, _, _⟩ := initial
  constructor
  case each =>
    intro timer
    obtain ⟨st, dormant⟩ := timers timer
    constructor <;> simp [tree, calls, pending, st, dormant]
  case treeOnce => simp [tree]
  case pendingOnce => simp [pending]

/-- An active timer does not wait for the adaptor of the timer server. -/
theorem PlacedAt.unserved (placed : PlacedAt sys timer)
    (st : (sys.timer timer).state ≠ .inactive) : sys.Unserved timer := by
  intro call mem its
  cases which : call.adaptor with
  | timer => rfl
  | server => exact absurd (placed.served call mem its which).1 st

section Places

variable [DecidableEq T] {sys : System T C R U}

theorem System.set_timer_self (timer : T) (ctl : Control R U) :
    (sys.set timer ctl).timer timer = ctl := Function.update_self ..

theorem System.set_timer_other {other : T} (different : other ≠ timer)
    (ctl : Control R U) : (sys.set timer ctl).timer other = sys.timer other :=
  Function.update_of_ne different ..

section

variable (placed : Placed sys) (timer : T)
include placed

/-- The three ends of a cancel: the timer was scheduled, pending, or inactive. -/
theorem Placed.cancel_cases : (sys.timer timer).state = .scheduled ∧ sys.cancel timer =
      { sys.set timer { sys.timer timer with state := .inactive } with
        tree := sys.tree.erase timer
        cancelled := sys.cancelled ++ [(sys.timer timer).fire] } ∨
    (sys.timer timer).state = .pending ∧ sys.cancel timer =
      { sys.set timer { sys.timer timer with state := .inactive } with
        pending := sys.pending.erase timer
        cancelled := sys.cancelled ++ [(sys.timer timer).fire] } ∨
    (sys.timer timer).state = .inactive ∧ sys.cancel timer = sys := by
  cases st : (sys.timer timer).state with
  | scheduled => exact .inl ⟨rfl, by simp [System.cancel, st]⟩
  | pending =>
    exact .inr (.inl ⟨rfl, by simp [System.cancel, st, (placed.each timer).onTask st]⟩)
  | inactive => exact .inr (.inr ⟨rfl, by simp [System.cancel, st]⟩)

/-- A cancel leaves the timer inactive, and the data of its last fire as it was. -/
theorem Placed.cancel_inactive :
    (sys.cancel timer).timer timer = { sys.timer timer with state := .inactive } := by
  obtain ⟨_, cancel⟩ | ⟨_, cancel⟩ | ⟨st, cancel⟩ := placed.cancel_cases timer
  · rw [cancel]
    exact Function.update_self ..
  · rw [cancel]
    exact Function.update_self ..
  · rw [cancel, ← st]

/-- A cancel does not change the removed watchdogs. -/
theorem Placed.cancel_calls : (sys.cancel timer).calls = sys.calls := by
  obtain ⟨_, cancel⟩ | ⟨_, cancel⟩ | ⟨_, cancel⟩ := placed.cancel_cases timer <;> rw [cancel] <;> rfl

/-- A cancel keeps every timer in its place. -/
theorem Placed.cancel : Placed (sys.cancel timer) := by
  have self := placed.each timer
  obtain ⟨st, cancel⟩ | ⟨st, cancel⟩ | ⟨_, cancel⟩ := placed.cancel_cases timer
  · rw [cancel]
    constructor
    case each =>
      intro other
      by_cases same : other = timer
      · subst same
        have notPending : other ∉ sys.pending := by simp [self.pending, st]
        exact self.inactive (System.set_timer_self ..) placed.treeOnce.not_mem_erase notPending
          fun call mem its server => (self.served call mem its server).2
      · exact (placed.each other).untouched (System.set_timer_other same _)
          (List.mem_erase_of_ne same) Iff.rfl fun call mem _ => mem
    case treeOnce => exact placed.treeOnce.erase timer
    case pendingOnce => exact placed.pendingOnce
  · rw [cancel]
    constructor
    case each =>
      intro other
      by_cases same : other = timer
      · subst same
        have notScheduled : other ∉ sys.tree := by simp [self.tree, st]
        exact self.inactive (System.set_timer_self ..) notScheduled placed.pendingOnce.not_mem_erase
          fun call mem its server => (self.served call mem its server).2
      · exact (placed.each other).untouched (System.set_timer_other same _) Iff.rfl
          (List.mem_erase_of_ne same) fun call mem _ => mem
    case treeOnce => exact placed.treeOnce
    case pendingOnce => exact placed.pendingOnce.erase timer
  · rw [cancel]
    exact placed

end

/-- An inactive timer that does not wait for the timer server is inserted with new data. -/
theorem Placed.insert (placed : Placed sys) (ctl : Control R U) (expire : Nat)
    (st : (sys.timer timer).state = .inactive) (unserved : sys.Unserved timer)
    (class' : ctl.theClass ≠ .dormant) (adaptor : ctl.adaptor = ctl.theClass.adaptor) :
    Placed ((sys.set timer ctl).insert timer expire) := by
  have self := placed.each timer
  have notScheduled : timer ∉ sys.tree := by simp [self.tree, st]
  have notPending : timer ∉ sys.pending := by simp [self.pending, st]
  constructor
  case each =>
    intro other
    by_cases same : other = timer
    · subst same
      have inserted : (((sys.set other ctl).insert other expire).timer other) =
          { ctl with state := .scheduled, expire := expire, fire := sys.fires.length } := by
        simp [System.insert, System.set]
      constructor
      case tree =>
        rw [inserted]
        exact ⟨fun _ => rfl, fun _ => List.mem_cons_self⟩
      case pending => simpa [System.insert, System.set] using notPending
      case served =>
        intro call mem its server
        simp [unserved call mem its] at server
      case onTask => simp [inserted]
      case adaptor => simpa [inserted] using fun _ => adaptor
      case fired => simpa [inserted] using class'
    · have untouched : ((sys.set timer ctl).insert timer expire).timer other =
          sys.timer other := by
        simp [System.insert, System.set, same]
      exact (placed.each other).untouched untouched (by simp [System.insert, System.set, same]) Iff.rfl
        fun call mem _ => mem
  case treeOnce => exact List.nodup_cons.mpr ⟨notScheduled, placed.treeOnce⟩
  case pendingOnce => exact placed.pendingOnce

/-- A scheduled timer that is removed because it is expired. -/
theorem Placed.expire (placed : Placed sys) (mem : timer ∈ sys.tree) :
    Placed (sys.expire timer) := by
  have self := placed.each timer
  have st := self.tree.mp mem
  have notPending : timer ∉ sys.pending := by simp [self.pending, st]
  have unserved : sys.Unserved timer := self.unserved (by simp [st])
  constructor
  case each =>
    intro other
    by_cases same : other = timer
    · subst same
      refine self.inactive (System.set_timer_self ..) placed.treeOnce.not_mem_erase notPending ?_
      intro call called its server
      obtain called | rfl := by simpa [System.expire] using called
      · simp [unserved call called its] at server
      · have class' := self.adaptor (self.fired st)
        rw [show (sys.timer other).adaptor = .server from server, Class.adaptor] at class'
        split at class'
        · exact ⟨rfl, ‹_›⟩
        · cases class'
    · refine (placed.each other).untouched (System.set_timer_other same _)
        (List.mem_erase_of_ne same) Iff.rfl ?_
      intro call called its
      obtain called | rfl := by simpa [System.expire] using called
      · exact called
      · exact absurd its.symm same
  case treeOnce => exact placed.treeOnce.erase timer
  case pendingOnce => exact placed.pendingOnce

theorem Placed.callAdaptor (placed : Placed sys) {index : Nat} {call : Call T}
    (found : sys.calls[index]? = some call)
    (once : ∀ other ∈ sys.calls.eraseIdx index, other.fire ≠ call.fire) :
    Placed ({ sys with calls := sys.calls.eraseIdx index }.callAdaptor call) := by
  have self := placed.each call.timer
  have mem := List.mem_of_getElem? found
  cases which : call.adaptor with
  | timer =>
    simp only [System.callAdaptor, which]
    constructor
    case each =>
      intro other
      exact (placed.each other).untouched rfl Iff.rfl Iff.rfl
        fun call mem _ => List.mem_of_mem_eraseIdx mem
    case treeOnce => exact placed.treeOnce
    case pendingOnce => exact placed.pendingOnce
  | server =>
    obtain ⟨st, fire, onTask⟩ := self.served call mem rfl which
    have notPending : call.timer ∉ sys.pending := by simp [self.pending, st]
    have notScheduled : call.timer ∉ sys.tree := by simp [self.tree, st]
    simp only [System.callAdaptor, which]
    constructor
    case each =>
      intro other
      by_cases same : other = call.timer
      · subst same
        constructor
        case tree => simpa [System.set] using notScheduled
        case pending => simp [System.set]
        case served =>
          intro other' member' its server
          have fire' := (self.served other' (List.mem_of_mem_eraseIdx member') its server).2.1
          exact absurd (fire'.trans fire.symm) (once other' member')
        case onTask => simpa [System.set] using onTask
        case adaptor => simpa [System.set] using self.adaptor
        case fired => simp [System.set]
      · exact (placed.each other).untouched (System.set_timer_other same _) Iff.rfl (by simp [same])
          fun call mem _ => List.mem_of_mem_eraseIdx mem
    case treeOnce => exact placed.treeOnce
    case pendingOnce =>
      simp only [List.nodup_append, placed.pendingOnce, List.mem_singleton]
      exact ⟨trivial, List.nodup_singleton _, fun timer mem other its same =>
        notPending (its ▸ same ▸ mem)⟩

/-- The fetch of the timer server. -/
theorem Placed.fetch (placed : Placed sys) : Placed sys.fetch := by
  unfold System.fetch
  cases pending : sys.pending with
  | nil => exact ⟨fun timer => (placed.each timer).untouched rfl Iff.rfl (by simp [pending])
      fun call mem _ => mem, placed.treeOnce, by simp⟩
  | cons timer rest =>
    have self := placed.each timer
    have once := placed.pendingOnce
    rw [pending, List.nodup_cons] at once
    have st := self.pending.mp (by simp [pending])
    have notScheduled : timer ∉ sys.tree := by simp [self.tree, st]
    constructor
    case each =>
      intro other
      by_cases same : other = timer
      · subst same
        exact self.inactive (System.set_timer_self ..) notScheduled once.1
          fun call mem its server => (self.served call mem its server).2
      · exact (placed.each other).untouched (System.set_timer_other same _) Iff.rfl
          (by simp [pending, same]) fun call mem _ => mem
    case treeOnce => exact placed.treeOnce
    case pendingOnce => exact once.2

/-- A fire keeps every timer in its place. -/
theorem Placed.fire (placed : Placed sys) (cpuOf : T → C) (interval : Nat)
    (routine : R) (userData : U) {theClass : Class} (class' : theClass ≠ .dormant)
    (unserved : sys.Unserved timer) :
    Placed (sys.fire cpuOf timer interval routine userData theClass) := by
  have cancel := placed.cancel_inactive timer
  refine (placed.cancel timer).insert _ _ (by rw [cancel]) ?_ class' rfl
  rw [System.Unserved, placed.cancel_calls]
  exact unserved

/-- The fire part of a reset. -/
theorem System.reset_eq (cpuOf : T → C) (interval : (sys.timer timer).theClass.isInterval = true) :
    sys.reset cpuOf timer =
      ((sys.cancel timer).set timer ((sys.cancel timer).timer timer)).insert timer
        (sys.ticks (cpuOf timer) + (sys.timer timer).initial) := by
  simp [System.reset, interval, System.set]

/-- A reset keeps every timer in its place. -/
theorem Placed.reset (placed : Placed sys) (cpuOf : T → C)
    (interval : (sys.timer timer).theClass.isInterval = true)
    (unserved : sys.Unserved timer) : Placed (sys.reset cpuOf timer) := by
  have cancel := placed.cancel_inactive timer
  have class' : (sys.timer timer).theClass ≠ .dormant := by
    intro dormant
    simp [dormant, Class.isInterval] at interval
  rw [System.reset_eq cpuOf interval, cancel]
  refine (placed.cancel timer).insert _ _ (by rw [cancel]) ?_ class'
    ((placed.each timer).adaptor class')
  rw [System.Unserved, placed.cancel_calls]
  exact unserved

end Places


end Rtems.Timer
