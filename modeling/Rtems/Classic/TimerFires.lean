import Rtems.Classic.TimerPlaces

/-!
# The fires of the timers

Every fire that did not end is owed by one timer or by one removed watchdog. It ends with a cancel or with a
run of the routine that it was given.
-/

namespace Rtems.Timer

universe u v w x
variable {T : Type u} {C : Type v} {R : Type w} {U : Type x}

/-- The runs that are begun. -/
def System.started (system : System T C R U) : List (Run T R U) :=
  system.server.running ++ system.runs

/-- The fires that are cancelled or led to a run. -/
def System.ended (system : System T C R U) : List Nat :=
  system.started.map Run.fire ++ system.cancelled

/-- The fire is the one of an active timer or of a removed watchdog. -/
def System.Owes (system : System T C R U) (timer : T) (fire : Nat) : Prop :=
  (system.timer timer).state ≠ .inactive ∧ (system.timer timer).fire = fire ∨
    ∃ call ∈ system.calls, call.timer = timer ∧ call.fire = fire

/-- The timers and the runs have the data of their fires. A fire has one end, and it is one timer or one
removed watchdog that leads to it. -/
structure Accounted (system : System T C R U) : Prop where
  owed : ∀ timer fire, system.Owes timer fire → system.fires[fire]? =
    some ⟨timer, (system.timer timer).routine, (system.timer timer).userData⟩ ∧ fire ∉ system.ended
  active : ∀ timer, (system.timer timer).state ≠ .inactive →
    (system.timer timer).fire ∉ system.calls.map Call.fire
  callsOnce : (system.calls.map Call.fire).Nodup
  started : ∀ run ∈ system.started, system.fires[run.fire]? = some run.toFire
  endedOnce : system.ended.Nodup
  ended : ∀ fire ∈ system.ended, fire < system.fires.length

variable {sys : System T C R U}

theorem Accounted.initial (initial : Initial sys) : Accounted sys := by
  obtain ⟨timers, _, calls, _, running, runs, cancelled⟩ := initial
  constructor
  case owed =>
    rintro timer fire (⟨active, _⟩ | ⟨call, mem, _⟩)
    · exact absurd (timers timer).1 active
    · simp [calls] at mem
  case active =>
    intro timer active
    exact absurd (timers timer).1 active
  case callsOnce => simp [calls]
  case started => simp [System.started, running, runs]
  case endedOnce => simp [System.ended, System.started, running, runs, cancelled]
  case ended => simp [System.ended, System.started, running, runs, cancelled]

variable {timer : T}

/-- The fire of a timer is owed by this timer. -/
theorem Accounted.owner (accounted : Accounted sys) {other : T} {fire : Nat}
    (owes : sys.Owes timer fire) (owes' : sys.Owes other fire) : other = timer := by
  have one := (accounted.owed timer fire owes).1
  have two := (accounted.owed other fire owes').1
  rw [one] at two
  exact (congrArg Fire.timer (Option.some.inj two)).symm

variable {next : System T C R U}

/-- A timer that a section does not touch owed before it what it owes after it. -/
theorem System.Owes.before {fire : Nat} (owes : next.Owes timer fire)
    (same : next.timer timer = sys.timer timer)
    (calls : ∀ call ∈ next.calls, call.timer = timer → call ∈ sys.calls) :
    sys.Owes timer fire := by
  obtain ⟨active, its⟩ | ⟨call, mem, its, num⟩ := owes
  · exact .inl (same ▸ ⟨active, its⟩)
  · exact .inr ⟨call, calls call mem its, its, num⟩

/-- A section that ends a fire that was owed: it is not owed after it, and what is owed was owed before
it. -/
theorem Accounted.finish (accounted : Accounted sys) {fire : Nat} (owes : sys.Owes timer fire)
    (fires : next.fires = sys.fires)
    (started : ∀ run ∈ next.started, run ∈ sys.started ∨ run.fire = fire ∧ run.toFire = ⟨timer, (sys.timer timer).routine, (sys.timer timer).userData⟩)
    (ended : next.ended.Perm (fire :: sys.ended))
    (others : ∀ other num, next.Owes other num → num ≠ fire ∧ sys.Owes other num ∧ (next.timer other).routine = (sys.timer other).routine ∧ (next.timer other).userData = (sys.timer other).userData)
    (active : ∀ other, (next.timer other).state ≠ .inactive → (next.timer other).fire ∉ next.calls.map Call.fire)
    (callsOnce : (next.calls.map Call.fire).Nodup) : Accounted next := by
  obtain ⟨data, fresh⟩ := accounted.owed timer fire owes
  constructor
  case owed =>
    intro other num owes'
    obtain ⟨ne, before, routine, userData⟩ := others other num owes'
    obtain ⟨data', fresh'⟩ := accounted.owed other num before
    rw [fires, routine, userData, ended.mem_iff, List.mem_cons]
    exact ⟨data', not_or.mpr ⟨ne, fresh'⟩⟩
  case active => exact active
  case callsOnce => exact callsOnce
  case started =>
    intro run mem
    rw [fires]
    obtain mem | ⟨num, its⟩ := started run mem
    · exact accounted.started run mem
    · rw [num, its, data]
  case endedOnce =>
    rw [ended.nodup_iff, List.nodup_cons]
    exact ⟨fresh, accounted.endedOnce⟩
  case ended =>
    intro num mem
    rw [ended.mem_iff, List.mem_cons] at mem
    rw [fires]
    obtain rfl | mem := mem
    · exact (List.getElem?_eq_some_iff.mp data).1
    · exact accounted.ended num mem

/-- A section that neither begins nor ends a fire. -/
theorem Accounted.keep (accounted : Accounted sys) (fires : next.fires = sys.fires)
    (started : next.started.Perm sys.started) (cancelled : next.cancelled = sys.cancelled)
    (owed : ∀ timer fire, next.Owes timer fire → sys.Owes timer fire ∧ (next.timer timer).routine = (sys.timer timer).routine ∧ (next.timer timer).userData = (sys.timer timer).userData)
    (active : ∀ timer, (next.timer timer).state ≠ .inactive → (next.timer timer).fire ∉ next.calls.map Call.fire)
    (callsOnce : (next.calls.map Call.fire).Nodup) : Accounted next := by
  have ended : next.ended.Perm sys.ended := by
    rw [System.ended, System.ended, cancelled]
    exact (started.map _).append_right _
  constructor
  case owed =>
    intro timer fire owes
    obtain ⟨before, routine, userData⟩ := owed timer fire owes
    rw [fires, routine, userData, ended.mem_iff]
    exact accounted.owed timer fire before
  case active => exact active
  case callsOnce => exact callsOnce
  case started =>
    intro run mem
    rw [fires]
    exact accounted.started run (started.mem_iff.mp mem)
  case endedOnce => exact ended.nodup_iff.mpr accounted.endedOnce
  case ended =>
    intro fire mem
    rw [fires]
    exact accounted.ended fire (ended.mem_iff.mp mem)

variable {index : Nat}

variable {call : Call T}

/-- A removed watchdog and its fire are once among the removed ones. -/
theorem Accounted.others_called (accounted : Accounted sys)
    (found : sys.calls[index]? = some call) :
    ∀ other ∈ sys.calls.eraseIdx index, other.fire ≠ call.fire := by
  intro other mem same
  obtain ⟨place, elsewhere, at'⟩ := List.mem_eraseIdx_iff_getElem?.mp mem
  have inside : place < (sys.calls.map Call.fire).length := by
    simpa using List.getElem?_eq_some_iff.mp at' |>.1
  exact elsewhere ((List.getElem?_inj inside accounted.callsOnce).mp (by simp [at', found, same]))

section Fires

variable [DecidableEq T] {sys : System T C R U}

/-- An inactive timer has a new fire. The removed watchdogs of the timer have the same data. -/
theorem Accounted.insert (accounted : Accounted sys) (ctl : Control R U) (expire : Nat)
    (st : (sys.timer timer).state = .inactive)
    (same : (∃ call ∈ sys.calls, call.timer = timer) → ctl.routine = (sys.timer timer).routine ∧ ctl.userData = (sys.timer timer).userData)
    :
    Accounted ((sys.set timer ctl).insert timer expire) := by
  have older : ∀ fire, fire < sys.fires.length → ∀ new : Fire T R U,
      (sys.fires ++ [new])[fire]? = sys.fires[fire]? := fun fire bound new =>
    List.getElem?_append_left bound
  have self : ((sys.set timer ctl).insert timer expire).timer timer =
      { ctl with state := .scheduled, expire := expire, fire := sys.fires.length } := by
    simp [System.insert, System.set]
  have fires : ((sys.set timer ctl).insert timer expire).fires =
      sys.fires ++ [⟨timer, ctl.routine, ctl.userData⟩] := by
    simp [System.insert, System.set]
  have untouched : ∀ other ≠ timer, ((sys.set timer ctl).insert timer expire).timer other =
      sys.timer other := by
    intro other ne
    simp [System.insert, System.set, ne]
  have numbered : ∀ call ∈ sys.calls, call.fire < sys.fires.length := by
    intro call mem
    have data := (accounted.owed call.timer call.fire (.inr ⟨call, mem, rfl, rfl⟩)).1
    exact (List.getElem?_eq_some_iff.mp data).1
  constructor
  case owed =>
    intro other fire owes
    by_cases its : other = timer
    · subst its
      rw [self, fires]
      obtain ⟨_, num⟩ | ⟨call, mem, whose, num⟩ := owes
      · rw [self] at num
        subst num
        exact ⟨by simp, fun mem => Nat.lt_irrefl _ (accounted.ended _ mem)⟩
      · obtain ⟨data, fresh⟩ := accounted.owed other fire (.inr ⟨call, mem, whose, num⟩)
        obtain ⟨routine, userData⟩ := same ⟨call, mem, whose⟩
        rw [older _ (num ▸ numbered call mem), routine, userData]
        exact ⟨data, fresh⟩
    · have before : sys.Owes other fire := owes.before (untouched other its) fun call mem _ => mem
      obtain ⟨data, fresh⟩ := accounted.owed other fire before
      rw [untouched other its, fires, older _ (List.getElem?_eq_some_iff.mp data).1]
      exact ⟨data, fresh⟩
  case active =>
    intro other active
    by_cases its : other = timer
    · subst its
      rw [self]
      intro mem
      obtain ⟨call, mem, num⟩ := List.mem_map.mp mem
      have bound := numbered call mem
      rw [num] at bound
      exact Nat.lt_irrefl _ bound
    · rw [untouched other its] at active ⊢
      exact accounted.active other active
  case callsOnce => exact accounted.callsOnce
  case started =>
    intro run mem
    have data := accounted.started run mem
    rw [fires, older _ (List.getElem?_eq_some_iff.mp data).1]
    exact data
  case endedOnce => exact accounted.endedOnce
  case ended =>
    intro fire mem
    rw [fires, List.length_append]
    exact Nat.lt_add_right _ (accounted.ended fire mem)

section

variable (accounted : Accounted sys)
include accounted

/-- A timer that a section makes inactive owes only what its removed watchdogs owe. The fire of an active timer
is not among them. -/
theorem Accounted.deactivate (st : (sys.timer timer).state ≠ .inactive)
    (timers : next.timer = (sys.set timer { sys.timer timer with state := .inactive }).timer)
    (calls : next.calls = sys.calls) (fires : next.fires = sys.fires)
    (started : ∀ run ∈ next.started, run ∈ sys.started ∨ run.fire = (sys.timer timer).fire ∧ run.toFire = ⟨timer, (sys.timer timer).routine, (sys.timer timer).userData⟩)
    (ended : next.ended.Perm ((sys.timer timer).fire :: sys.ended)) : Accounted next := by
  have owes : sys.Owes timer (sys.timer timer).fire := .inl ⟨st, rfl⟩
  have self : next.timer timer = { sys.timer timer with state := .inactive } := by
    rw [timers, System.set_timer_self]
  have untouched : ∀ other ≠ timer, next.timer other = sys.timer other := by
    intro other ne
    rw [timers, System.set_timer_other ne]
  refine accounted.finish owes fires started ended ?_ ?_ (calls ▸ accounted.callsOnce)
  · intro other num owes'
    by_cases its : other = timer
    · subst its
      obtain ⟨active, _⟩ | ⟨call, mem, whose, number'⟩ := owes'
      · exact absurd (by rw [self]) active
      · rw [calls] at mem
        refine ⟨?_, .inr ⟨call, mem, whose, number'⟩, by rw [self], by rw [self]⟩
        intro same
        exact accounted.active other st (List.mem_map.mpr ⟨call, mem, number'.trans same⟩)
    · have before := owes'.before (untouched other its) fun call mem _ => calls ▸ mem
      refine ⟨?_, before, by rw [untouched other its], by rw [untouched other its]⟩
      intro same
      exact its (accounted.owner owes (same ▸ before))
  · intro other active
    by_cases its : other = timer
    · subst its
      exact absurd (by rw [self]) active
    · rw [untouched other its] at active ⊢
      rw [calls]
      exact accounted.active other active

/-- A cancel of a scheduled or pending timer ends its fire. -/
theorem Accounted.cancel (placed : Placed sys) (timer : T) : Accounted (sys.cancel timer) := by
  have ended : ((sys.started.map Run.fire) ++ (sys.cancelled ++ [(sys.timer timer).fire])).Perm
        ((sys.timer timer).fire :: sys.ended) := by
    rw [← List.append_assoc]
    exact List.perm_append_singleton _ _
  obtain ⟨st, cancel⟩ | ⟨st, cancel⟩ | ⟨_, cancel⟩ := placed.cancel_cases timer
  iterate 2
    · rw [cancel]
      exact accounted.deactivate (by simp [st]) rfl rfl rfl (fun run mem => .inl mem) ended
  · rw [cancel]
    exact accounted

theorem Accounted.fire (placed : Placed sys) (cpuOf : T → C) (interval : Nat) (routine : R)
    (userData : U) (theClass : Class)
    (same : (∃ call ∈ sys.calls, call.timer = timer) → (sys.timer timer).routine = routine ∧ (sys.timer timer).userData = userData)
    :
    Accounted (sys.fire cpuOf timer interval routine userData theClass) := by
  have cancel := placed.cancel_inactive timer
  refine (accounted.cancel placed timer).insert _ _ (by rw [cancel]) ?_
  rw [placed.cancel_calls, cancel]
  exact fun called => ⟨(same called).1.symm, (same called).2.symm⟩

/-- A reset is a new fire. -/
theorem Accounted.reset (placed : Placed sys) (cpuOf : T → C)
    (interval : (sys.timer timer).theClass.isInterval = true) :
    Accounted (sys.reset cpuOf timer) := by
  have cancel := placed.cancel_inactive timer
  rw [System.reset_eq cpuOf interval]
  exact (accounted.cancel placed timer).insert _ _ (by rw [cancel]) fun _ => ⟨rfl, rfl⟩

/-- A removed watchdog owes the fire of its timer. -/
theorem Accounted.expire (placed : Placed sys) (mem : timer ∈ sys.tree) :
    Accounted (sys.expire timer) := by
  have st := (placed.each timer).tree.mp mem
  have owes : sys.Owes timer (sys.timer timer).fire := .inl ⟨by simp [st], rfl⟩
  have fresh := accounted.active timer (by simp [st])
  have self : (sys.expire timer).timer timer = { sys.timer timer with state := .inactive } :=
    System.set_timer_self ..
  have untouched : ∀ other ≠ timer, (sys.expire timer).timer other = sys.timer other :=
    fun other ne => System.set_timer_other ne _
  refine accounted.keep rfl (List.Perm.refl _) rfl ?_ ?_ ?_
  · intro other fire owes'
    by_cases its : other = timer
    · subst its
      refine ⟨?_, by rw [self], by rw [self]⟩
      obtain ⟨active, _⟩ | ⟨call, called, whose, num⟩ := owes'
      · exact absurd (by rw [self]) active
      · obtain called | rfl := by simpa [System.expire] using called
        · exact .inr ⟨call, called, whose, num⟩
        · exact num ▸ owes
    · refine ⟨owes'.before (untouched other its) ?_, by rw [untouched other its],
        by rw [untouched other its]⟩
      intro call called whose
      obtain called | rfl := by simpa [System.expire] using called
      · exact called
      · exact absurd whose.symm its
  · intro other active
    by_cases its : other = timer
    · subst its
      exact absurd (by rw [self]) active
    · rw [untouched other its] at active ⊢
      have before : sys.Owes other (sys.timer other).fire := .inl ⟨active, rfl⟩
      simp only [System.expire, List.map_append, List.mem_append, List.map_singleton,
        List.mem_singleton, not_or]
      exact ⟨accounted.active other active, fun same => its (accounted.owner owes (same ▸ before))⟩
  · simp only [System.expire, List.map_append]
    exact (List.perm_append_singleton _ _).nodup_iff.mpr
      (List.nodup_cons.mpr ⟨fresh, accounted.callsOnce⟩)

/-- The call of the adaptor of a plain timer runs the routine, with the data of the fire. -/
theorem Accounted.callTimer (found : sys.calls[index]? = some call)
    (which : call.adaptor = .timer) :
    Accounted ({ sys with calls := sys.calls.eraseIdx index }.callAdaptor call) := by
  have mem := List.mem_of_getElem? found
  have once := accounted.others_called found
  have fewer : (sys.calls.eraseIdx index).Sublist sys.calls := List.eraseIdx_sublist ..
  have owes : sys.Owes call.timer call.fire := .inr ⟨call, mem, rfl, rfl⟩
  simp only [System.callAdaptor, which]
  refine accounted.finish owes rfl ?_ ?_ ?_ ?_ (accounted.callsOnce.sublist (fewer.map _))
  · intro run begun
    obtain begun | begun | rfl := by simpa [System.started] using begun
    · exact .inl (List.mem_append_left _ begun)
    · exact .inl (List.mem_append_right _ begun)
    · exact .inr ⟨rfl, rfl⟩
  · simpa [System.ended, System.started] using
      @List.perm_middle _ call.fire (sys.started.map Run.fire) sys.cancelled
  · intro other num owes'
    refine ⟨?_, owes'.before rfl fun call called _ => fewer.subset called, rfl, rfl⟩
    obtain ⟨active, its⟩ | ⟨call', called, _, its⟩ := owes'
    · intro same
      exact accounted.active other active (List.mem_map.mpr ⟨call, mem, (its.trans same).symm⟩)
    · exact its ▸ once call' called
  · intro other active called
    exact accounted.active other active ((fewer.map _).subset called)

/-- The call of the adaptor of a task-based timer leaves the fire owed. -/
theorem Accounted.callServer (placed : Placed sys) (found : sys.calls[index]? = some call)
    (which : call.adaptor = .server) :
    Accounted ({ sys with calls := sys.calls.eraseIdx index }.callAdaptor call) := by
  have mem := List.mem_of_getElem? found
  have once := accounted.others_called found
  have fewer : (sys.calls.eraseIdx index).Sublist sys.calls := List.eraseIdx_sublist ..
  have owes : sys.Owes call.timer call.fire := .inr ⟨call, mem, rfl, rfl⟩
  obtain ⟨_, fire, _⟩ := (placed.each call.timer).served call mem rfl which
  simp only [System.callAdaptor, which]
  refine accounted.keep rfl (List.Perm.refl _) rfl ?_ ?_ (accounted.callsOnce.sublist (fewer.map _))
  · intro other num owes'
    by_cases its : other = call.timer
    · subst its
      refine ⟨?_, by simp [System.set], by simp [System.set]⟩
      obtain ⟨_, number'⟩ | ⟨call', called, whose, number'⟩ := owes'
      · rw [← number']
        simpa [System.set, ← fire] using owes
      · exact .inr ⟨call', fewer.subset called, whose, number'⟩
    · have untouched := show (sys.set call.timer { sys.timer call.timer with state := .pending }).timer other =
        sys.timer other from System.set_timer_other its _
      refine ⟨owes'.before untouched fun call called _ => fewer.subset called, ?_, ?_⟩
      · simp [System.set, its]
      · simp [System.set, its]
  · intro other active
    by_cases its : other = call.timer
    · subst its
      simpa [System.set, ← fire] using once
    · intro called
      have active' : (sys.timer other).state ≠ .inactive := by
        simpa [System.set, its] using active
      refine accounted.active other active' ((fewer.map _).subset ?_)
      simpa [System.set, its] using called

end

/-- The fetch of a pending timer begins the run of its routine. -/
theorem Accounted.fetch (accounted : Accounted sys) (placed : Placed sys)
    (server : sys.server = .fetching) : Accounted sys.fetch := by
  have idle : sys.started = sys.runs := by simp [System.started, server, Server.running]
  unfold System.fetch
  cases pending : sys.pending with
  | nil =>
    refine accounted.keep rfl ?_ rfl (fun timer fire owes => ⟨owes, rfl, rfl⟩) accounted.active
      accounted.callsOnce
    rw [idle]
    exact List.Perm.refl _
  | cons timer rest =>
    have st := (placed.each timer).pending.mp (by simp [pending])
    refine accounted.deactivate (by simp [st]) rfl rfl rfl ?_ ?_
    · intro run begun
      obtain rfl | begun := List.mem_cons.mp begun
      · exact .inr ⟨rfl, rfl⟩
      · exact .inl (idle ▸ begun)
    · rw [System.ended, System.ended, idle]
      exact List.Perm.refl _

end Fires


end Rtems.Timer
