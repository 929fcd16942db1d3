import Mathlib.Data.List.Perm.Basic
import Rtems.Library.Transition

/-!
# The swap-out task and its workers

The swap-out task takes the buffers of one device from the list of buffers to sync and from the
list of modified buffers. It writes them itself, or sends them to a worker from the chain of
free workers. It takes the worker before it knows whether there is something to write.

A pass is what the task does while it holds the lock of the cache. The threads that change the
lists, the transfers of single buffers and the ends of the transfers are steps of their own.
-/

namespace Rtems.Block.Swapout

open Function (update update_of_ne update_self)

/-- A buffer on a list of the cache. Releases are counted to tell the contents. -/
structure Buffer where
  release : Nat
  dd : Nat
  block : Nat
  holdTimer : Nat
deriving DecidableEq

/-- `rtems_bdbuf_swapout_transfer`. `BDBUF_INVALID_DEV` is no device. -/
structure Transfer where
  dd : Option Nat
  syncing : Bool
  bds : List Buffer

/-- A transfer, and how many of its buffers have been written. -/
structure Job where
  transfer : Transfer
  progress : Nat

/-- The state of the swap-out task between its passes. -/
inductive Task where
  | idle
  | writing (job : Job)
  | ending

/-- The part of `rtems_bdbuf_cache` that swapping out works on. A worker has a job from when it
was sent one until it is back on the chain. -/
structure Cache where
  sync : List Buffer
  modified : List Buffer
  swapoutFreeWorkers : List Nat
  jobs : Nat → Option Job
  swapout : Task
  syncActive : Bool
  syncDevice : Nat

/-- The hold timer of a buffer in a pass. -/
def passTimer (force updateTimers : Bool) (timerDelta holdTimer : Nat) : Nat :=
  if force then 0
  else if updateTimers then if holdTimer > timerDelta then holdTimer - timerDelta else 0
  else holdTimer

/-- The buffers of a transfer are in block order. The place is searched from the tail. -/
def insertBuffer (bd : Buffer) (transfer : List Buffer) : List Buffer :=
  (transfer.reverse.dropWhile fun tbd => !decide (bd.block > tbd.block)).reverse ++ bd ::
    (transfer.reverse.takeWhile fun tbd => !decide (bd.block > tbd.block)).reverse

/-- What a scan of a list leaves: the device, the list and the transfer. -/
structure Scan where
  dd : Option Nat
  chain : List Buffer
  transfer : List Buffer

/-- A buffer stays on the list. -/
def Scan.keep (bd : Buffer) (scan : Scan) : Scan := { scan with chain := bd :: scan.chain }

section Processing

variable (syncAll syncActive updateTimers hasWaiters : Bool) (timerDelta : Nat)

/-- The loop of `rtems_bdbuf_swapout_modified_processing`. -/
def modifiedLoop (dd : Option Nat) (transfer : List Buffer) : List Buffer → Scan
  | [] => ⟨dd, [], transfer⟩
  | bd :: rest =>
    let force := syncAll || (syncActive && decide (dd = some bd.dd)) || hasWaiters
    let bd := { bd with holdTimer := passTimer force updateTimers timerDelta bd.holdTimer }
    if bd.holdTimer ≠ 0 then (modifiedLoop dd transfer rest).keep bd
    else
      let selected := dd.getD bd.dd
      if bd.dd = selected then modifiedLoop (some selected) (insertBuffer bd transfer) rest
      else (modifiedLoop (some selected) transfer rest).keep bd

/-- `rtems_bdbuf_swapout_modified_processing`. -/
def swapoutModifiedProcessing (dd : Option Nat) (chain transfer : List Buffer) : Scan :=
  modifiedLoop (syncActive && dd.isNone) syncActive updateTimers hasWaiters timerDelta dd transfer
    chain

end Processing

/-- The scan of the buffers to sync in a pass. -/
def scanSync (cache : Cache) (hasWaiters : Bool) (timerDelta : Nat) : Scan :=
  swapoutModifiedProcessing true false hasWaiters timerDelta
    (if cache.syncActive then some cache.syncDevice else none) cache.sync []

section

variable (cache : Cache) (updateTimers hasWaiters : Bool) (timerDelta : Nat)

/-- The scan of the modified buffers in a pass. -/
def scanModified : Scan :=
  swapoutModifiedProcessing cache.syncActive updateTimers hasWaiters timerDelta
    (scanSync cache hasWaiters timerDelta).dd cache.modified
    (scanSync cache hasWaiters timerDelta).transfer

/-- The lists behind a pass. A worker is taken unless a sync is active. -/
def takeBuffers : Cache :=
  { cache with
    sync := (scanSync cache hasWaiters timerDelta).chain
    modified := (scanModified cache updateTimers hasWaiters timerDelta).chain
    swapoutFreeWorkers :=
      if cache.syncActive then cache.swapoutFreeWorkers else cache.swapoutFreeWorkers.tail }

/-- The worker of a pass. -/
def passWorker (cache : Cache) : Option Nat :=
  if cache.syncActive then none else cache.swapoutFreeWorkers.head?

/-- The transfer of a pass. -/
def passTransfer : Transfer :=
  ⟨(scanModified cache updateTimers hasWaiters timerDelta).dd, cache.syncActive,
    (scanModified cache updateTimers hasWaiters timerDelta).transfer⟩

/-- `rtems_bdbuf_swapout_processing` up to the writing of the buffers. -/
def swapoutProcessing : Cache :=
  let transfer := passTransfer cache updateTimers hasWaiters timerDelta
  let taken := takeBuffers cache updateTimers hasWaiters timerDelta
  if transfer.bds ≠ [] then
    match passWorker cache with
    | some worker => { taken with jobs := update taken.jobs worker (some ⟨transfer, 0⟩) }
    | none => { taken with swapout := .writing ⟨transfer, 0⟩ }
  else if cache.syncActive then { taken with swapout := .ending }
  else taken

end

/-- What happens to the cache. No worker is the swap-out task itself. -/
inductive Input where
  | lists (sync modified : List Buffer)
  | request (dd : Nat)
  | pass (updateTimers hasWaiters : Bool) (timerDelta : Nat)
  | transferred (worker : Option Nat)
  | finish (worker : Option Nat)
  | endSync

/-- One more buffer has been written. -/
def Job.advance (job : Job) : Option Job :=
  if job.progress < job.transfer.bds.length then some { job with progress := job.progress + 1 }
  else none

/-- `rtems_bdbuf_swapout_write` is done. -/
def Job.complete (job : Job) : Prop := job.progress = job.transfer.bds.length
deriving Decidable

/-- The steps of the threads, the swap-out task and its workers. -/
def step (cache : Cache) : Input → Option Cache
  | .lists sync modified => some { cache with sync := sync, modified := modified }
  | .request dd =>
    if cache.syncActive then none else some { cache with syncActive := true, syncDevice := dd }
  | .pass updateTimers hasWaiters timerDelta =>
    match cache.swapout with
    | .idle => some (swapoutProcessing cache updateTimers hasWaiters timerDelta)
    | _ => none
  | .transferred none =>
    match cache.swapout with
    | .writing job => job.advance.map fun job => { cache with swapout := .writing job }
    | _ => none
  | .transferred (some worker) =>
    (cache.jobs worker).bind fun job => job.advance.map fun job =>
      { cache with jobs := update cache.jobs worker (some job) }
  | .finish none =>
    match cache.swapout with
    | .writing job => if job.complete then some { cache with swapout := .idle } else none
    | _ => none
  | .finish (some worker) =>
    -- the end of the loop body of `rtems_bdbuf_swapout_worker_task`
    (cache.jobs worker).bind fun job =>
      if job.complete then
        some { cache with
          jobs := update cache.jobs worker none
          swapoutFreeWorkers := cache.swapoutFreeWorkers ++ [worker] }
      else none
  | .endSync =>
    match cache.swapout with
    | .ending => some { cache with swapout := .idle, syncActive := false }
    | _ => none

/-- The cache behind `rtems_bdbuf_swapout_workers_create`. -/
def create (workers : Nat) : Cache where
  sync := []
  modified := []
  swapoutFreeWorkers := List.range workers
  jobs := fun _ => none
  swapout := .idle
  syncActive := false
  syncDevice := 0

/-- A run starts with all workers on the chain. -/
def Initial (workers : Nat) (cache : Cache) : Prop := cache = create workers

theorem create_initial (workers : Nat) : Initial workers (create workers) := rfl

section Scans

/-- The release and the device of a buffer. The timer may change. -/
def Buffer.name (bd : Buffer) : Nat × Nat := (bd.release, bd.dd)

theorem insertBuffer_perm (bd : Buffer) (transfer : List Buffer) :
    (insertBuffer bd transfer).Perm (bd :: transfer) := by
  refine List.perm_middle.trans (.cons bd ?_)
  rw [← List.reverse_append, List.takeWhile_append_dropWhile, List.reverse_reverse]

theorem insertBuffer_ne_nil (bd : Buffer) (transfer : List Buffer) :
    insertBuffer bd transfer ≠ [] :=
  List.append_ne_nil_of_right_ne_nil _ (List.cons_ne_nil _ _)

variable {syncAll syncActive updateTimers hasWaiters : Bool} {timerDelta : Nat}

attribute [local simp] modifiedLoop

/-- No buffer is lost in a scan. -/
theorem modifiedLoop_names (dd : Option Nat) (transfer chain : List Buffer) :
    (((modifiedLoop syncAll syncActive updateTimers hasWaiters timerDelta dd transfer chain).chain ++
      (modifiedLoop syncAll syncActive updateTimers hasWaiters timerDelta dd transfer
        chain).transfer).map Buffer.name).Perm ((chain ++ transfer).map Buffer.name) := by
  induction chain generalizing dd transfer with
  | nil => exact .refl _
  | cons bd rest ih =>
    rw [modifiedLoop]
    dsimp only
    split
    next => exact (ih dd transfer).cons bd.name
    next =>
      split
      next =>
        refine (ih _ _).trans ?_
        rw [List.map_append, List.map_append, List.map_cons]
        refine (((insertBuffer_perm _ _).map Buffer.name).append_left _).trans ?_
        exact List.perm_middle
      next => exact (ih _ transfer).cons bd.name

theorem modifiedLoop_ne_nil {dd : Option Nat} {transfer : List Buffer} (some_bds : transfer ≠ [])
    (chain : List Buffer) :
    (modifiedLoop syncAll syncActive updateTimers hasWaiters timerDelta dd transfer
      chain).transfer ≠ [] := by
  induction chain generalizing dd transfer with
  | nil => exact some_bds
  | cons bd rest ih =>
    rw [modifiedLoop]
    dsimp only
    split
    next => exact ih some_bds
    next =>
      split
      next => exact ih (insertBuffer_ne_nil _ _)
      next => exact ih some_bds

/-- The first buffer without a timer selects the device. -/
theorem modifiedLoop_due {chain : List Buffer} (due : ∃ bd ∈ chain, passTimer (syncAll ||
      hasWaiters) updateTimers timerDelta bd.holdTimer = 0) :
    (modifiedLoop syncAll syncActive updateTimers hasWaiters timerDelta none [] chain).transfer ≠ [] := by
  induction chain with
  | nil =>
    obtain ⟨bd, none, _⟩ := due
    cases none
  | cons bd rest ih =>
    have forced : (syncAll || (syncActive && decide ((none : Option Nat) = some bd.dd)) ||
        hasWaiters) = (syncAll || hasWaiters) := by
      rw [decide_eq_false (by simp), Bool.and_false, Bool.or_false]
    rw [modifiedLoop]
    rw [forced]
    split
    next held =>
      apply ih
      obtain ⟨other, there, expired⟩ := due
      rcases List.mem_cons.mp there with rfl | later
      · exact absurd expired held
      · exact ⟨other, later, expired⟩
    next =>
      rw [Option.getD_none, if_pos rfl]
      exact modifiedLoop_ne_nil (insertBuffer_ne_nil _ _) rest

/-- A scan for a device keeps the device and takes all its buffers. -/
theorem modifiedLoop_device (dd : Nat) (transfer chain : List Buffer) :
    (modifiedLoop syncAll true updateTimers hasWaiters timerDelta (some dd) transfer chain).dd =
        some dd ∧
      ∀ bd ∈ (modifiedLoop syncAll true updateTimers hasWaiters timerDelta (some dd) transfer
        chain).chain, bd.dd ≠ dd := by
  induction chain generalizing transfer with
  | nil =>
    refine ⟨rfl, fun bd none => ?_⟩
    cases none
  | cons bd rest ih =>
    have keep {kept : Buffer} (other : kept.dd ≠ dd) :
        ∀ bd ∈ kept :: (modifiedLoop syncAll true updateTimers hasWaiters timerDelta (some dd)
          transfer rest).chain, bd.dd ≠ dd := by
      intro bd there
      rcases List.mem_cons.mp there with rfl | later
      · exact other
      · exact (ih transfer).2 bd later
    rw [modifiedLoop]
    dsimp only
    split
    next held =>
      refine ⟨(ih transfer).1, keep fun same => held ?_⟩
      have here : decide (some dd = some bd.dd) = true := decide_eq_true (congrArg some same.symm)
      rw [here, Bool.and_self, Bool.or_true, Bool.true_or, passTimer, if_pos rfl]
    next =>
      split
      next => exact ih _
      next other => exact ⟨(ih transfer).1, keep other⟩

end Scans

section Outcome

/-- What a pass does with its transfer. -/
inductive Outcome (cache taken : Cache) (transfer : Transfer) : Cache → Prop
  | sent (worker : Nat) (rest : List Nat) (inactive : cache.syncActive = false)
      (free : cache.swapoutFreeWorkers = worker :: rest) (some_bds : transfer.bds ≠ []) :
      Outcome cache taken transfer
        { taken with jobs := update taken.jobs worker (some ⟨transfer, 0⟩) }
  | writing (nobody : passWorker cache = none) (some_bds : transfer.bds ≠ []) :
      Outcome cache taken transfer { taken with swapout := .writing ⟨transfer, 0⟩ }
  | ending (active : cache.syncActive = true) (empty : transfer.bds = []) :
      Outcome cache taken transfer { taken with swapout := .ending }
  | nothing (inactive : cache.syncActive = false) (empty : transfer.bds = []) :
      Outcome cache taken transfer taken

theorem swapoutProcessing_outcome (cache : Cache) (updateTimers hasWaiters : Bool)
    (timerDelta : Nat) :
    Outcome cache (takeBuffers cache updateTimers hasWaiters timerDelta)
      (passTransfer cache updateTimers hasWaiters timerDelta)
      (swapoutProcessing cache updateTimers hasWaiters timerDelta) := by
  rw [swapoutProcessing]
  split
  next some_bds =>
    cases chosen : passWorker cache with
    | none => exact .writing chosen some_bds
    | some worker =>
      rw [passWorker] at chosen
      split at chosen
      next => cases chosen
      next inactive =>
        obtain ⟨rest, free⟩ := List.head?_eq_some_iff.mp chosen
        exact .sent worker rest (Bool.eq_false_iff.mpr inactive) free some_bds
  next none =>
    have empty := not_not.mp none
    split
    next active => exact .ending active empty
    next inactive => exact .nothing (Bool.eq_false_iff.mpr inactive) empty

end Outcome

section Workers

/-- A buffer that a pass without a sync writes. -/
def Due (updateTimers hasWaiters : Bool) (timerDelta : Nat) (bd : Buffer) : Prop :=
  hasWaiters = true ∨ bd.holdTimer = 0 ∨ updateTimers = true ∧ bd.holdTimer ≤ timerDelta
deriving Decidable

theorem Due.passTimer {updateTimers hasWaiters : Bool} {timerDelta : Nat} {bd : Buffer}
    (due : Due updateTimers hasWaiters timerDelta bd) :
    Swapout.passTimer hasWaiters updateTimers timerDelta bd.holdTimer = 0 := by
  rw [Swapout.passTimer]
  rcases due with forced | zero | ⟨update, short⟩
  · rw [if_pos forced]
  · rw [zero]
    split
    · rfl
    · split
      · rw [if_neg (Nat.not_lt_zero _)]
      · rfl
  · rw [if_pos update, if_neg (Nat.not_lt_of_le short)]
    split <;> rfl

variable {cache : Cache} {updateTimers hasWaiters : Bool} {timerDelta : Nat}

/-- There is something to write. -/
theorem passTransfer_ne_nil (inactive : cache.syncActive = false)
    (work : cache.sync ≠ [] ∨ ∃ bd ∈ cache.modified, Due updateTimers hasWaiters timerDelta bd) :
    (passTransfer cache updateTimers hasWaiters timerDelta).bds ≠ [] := by
  have first : scanSync cache hasWaiters timerDelta =
      modifiedLoop true true false hasWaiters timerDelta none [] cache.sync := by
    rw [scanSync, swapoutModifiedProcessing, inactive]
    rfl
  rw [passTransfer, scanModified, swapoutModifiedProcessing, inactive]
  by_cases some_bds : cache.sync = []
  · have none : scanSync cache hasWaiters timerDelta = ⟨none, [], []⟩ := by
      rw [first, some_bds, modifiedLoop]
    rw [none]
    obtain ⟨bd, there, due⟩ := work.resolve_left (not_not.mpr some_bds)
    apply modifiedLoop_due
    exact ⟨bd, there, due.passTimer⟩
  · rw [first]
    apply modifiedLoop_ne_nil
    apply modifiedLoop_due
    obtain ⟨bd, rest, split⟩ := List.exists_cons_of_ne_nil some_bds
    refine ⟨bd, split ▸ List.mem_cons_self, ?_⟩
    rw [Bool.true_or, passTimer, if_pos rfl]

/-- A worker is on the chain, or it was sent a transfer and has not finished. Every transfer that
was sent has some buffers. -/
structure NoneLost (workers : Nat) (cache : Cache) : Prop where
  accounted : ∀ worker < workers, worker ∈ cache.swapoutFreeWorkers ∨
    ∃ job, cache.jobs worker = some job
  loaded : ∀ worker job, cache.jobs worker = some job → job.transfer.bds ≠ []

/-- A pass that takes a worker finds something to write. -/
def FindsWork (cache : Cache) : Input → Prop
  | .pass updateTimers hasWaiters timerDelta =>
    cache.syncActive = false → cache.swapoutFreeWorkers ≠ [] →
      cache.sync ≠ [] ∨ ∃ bd ∈ cache.modified, Due updateTimers hasWaiters timerDelta bd
  | _ => True

instance (cache : Cache) (input : Input) : Decidable (FindsWork cache input) :=
  match input with
  | .pass updateTimers hasWaiters timerDelta =>
    inferInstanceAs (Decidable (cache.syncActive = false → cache.swapoutFreeWorkers ≠ [] →
      cache.sync ≠ [] ∨ ∃ bd ∈ cache.modified, Due updateTimers hasWaiters timerDelta bd))
  | .lists .. | .request _ | .transferred _ | .finish _ | .endSync => .isTrue trivial

variable {workers : Nat} {next : Cache}

/-- The workers do not notice. -/
theorem NoneLost.same (kept : NoneLost workers cache)
    (free : next.swapoutFreeWorkers = cache.swapoutFreeWorkers) (jobs : next.jobs = cache.jobs) :
    NoneLost workers next := by
  constructor
  · rw [free, jobs]
    exact kept.accounted
  · rw [jobs]
    exact kept.loaded

/-- A worker gets a job or goes on with it. -/
theorem NoneLost.update (kept : NoneLost workers cache) {busy : Nat} {job : Job}
    (some_bds : job.transfer.bds ≠ [])
    (free : ∀ worker ∈ cache.swapoutFreeWorkers, worker ≠ busy → worker ∈ next.swapoutFreeWorkers)
    (jobs : next.jobs = update cache.jobs busy (some job)) : NoneLost workers next := by
  constructor
  · intro worker below
    rw [jobs]
    by_cases here : worker = busy
    · right
      exact ⟨job, here ▸ update_self _ _ _⟩
    · rw [update_of_ne here]
      rcases kept.accounted worker below with there | sent
      · exact .inl (free worker there here)
      · exact .inr sent
  · intro worker other sent
    rw [jobs] at sent
    by_cases here : worker = busy
    · rw [here, update_self] at sent
      cases sent
      exact some_bds
    · rw [update_of_ne here] at sent
      exact kept.loaded worker other sent

/-- A worker goes back to the chain. -/
theorem NoneLost.finish (kept : NoneLost workers cache) (worker : Nat) :
    NoneLost workers { cache with
      jobs := Function.update cache.jobs worker none
      swapoutFreeWorkers := cache.swapoutFreeWorkers ++ [worker] } := by
  constructor
  · intro other below
    by_cases here : other = worker
    · exact .inl (List.mem_append_right _ (List.mem_singleton.mpr here))
    · rcases kept.accounted other below with there | ⟨job, sent⟩
      · exact .inl (List.mem_append_left _ there)
      · exact .inr ⟨job, (update_of_ne here _ _).trans sent⟩
  · intro other job sent
    dsimp only at sent
    by_cases here : other = worker
    · rw [here, update_self] at sent
      cases sent
    · rw [update_of_ne here] at sent
      exact kept.loaded other job sent

/-- A pass without a worker leaves the chain. -/
theorem takeBuffers_nobody (nobody : passWorker cache = none) (updateTimers hasWaiters : Bool)
    (timerDelta : Nat) :
    (takeBuffers cache updateTimers hasWaiters timerDelta).swapoutFreeWorkers =
      cache.swapoutFreeWorkers := by
  rw [passWorker] at nobody
  rw [takeBuffers]
  split at nobody
  next active => rw [if_pos active]
  next inactive => rw [if_neg inactive, List.head?_eq_none_iff.mp nobody, List.tail_nil]

/-- A pass sends its worker a job. -/
theorem NoneLost.pass (kept : NoneLost workers cache)
    (work : FindsWork cache (.pass updateTimers hasWaiters timerDelta)) :
    NoneLost workers (swapoutProcessing cache updateTimers hasWaiters timerDelta) := by
  have outcome := swapoutProcessing_outcome cache updateTimers hasWaiters timerDelta
  generalize swapoutProcessing cache updateTimers hasWaiters timerDelta = next at outcome
  cases outcome with
  | sent worker rest inactive free some_bds =>
    have tail : (takeBuffers cache updateTimers hasWaiters timerDelta).swapoutFreeWorkers =
        rest := by
      rw [takeBuffers, inactive, if_neg (by decide), free, List.tail_cons]
    refine kept.update some_bds (fun other there different => ?_) rfl
    rw [free] at there
    exact tail.symm ▸ (List.mem_cons.mp there).resolve_left different
  | writing nobody some_bds => exact kept.same (takeBuffers_nobody nobody updateTimers hasWaiters timerDelta) rfl
  | ending active empty =>
    have nobody : passWorker cache = none := by rw [passWorker, if_pos active]
    exact kept.same (takeBuffers_nobody nobody updateTimers hasWaiters timerDelta) rfl
  | nothing inactive empty =>
    -- with a free worker the pass would have found work
    have nobody : passWorker cache = none := by
      rw [passWorker, inactive, if_neg (by decide), List.head?_eq_none_iff]
      by_contra some_worker
      exact passTransfer_ne_nil inactive (work inactive some_worker) empty
    exact kept.same (takeBuffers_nobody nobody updateTimers hasWaiters timerDelta) rfl

theorem Job.advance_bds {job more : Job} (advanced : job.advance = some more) :
    more.transfer = job.transfer := by
  rw [Job.advance] at advanced
  split at advanced
  · cases advanced
    rfl
  · cases advanced

/-- No step loses a worker while the passes find work. -/
theorem NoneLost.step {input : Input} (kept : NoneLost workers cache) (work : FindsWork cache input)
    (taken : Swapout.step cache input = some next) : NoneLost workers next := by
  cases input with
  | lists sync modified =>
    cases taken
    exact kept.same rfl rfl
  | request dd =>
    rw [Swapout.step] at taken
    split at taken
    · cases taken
    · cases taken
      exact kept.same rfl rfl
  | pass updateTimers hasWaiters timerDelta =>
    rw [Swapout.step] at taken
    split at taken
    · cases taken
      exact kept.pass work
    · cases taken
  | transferred worker =>
    cases worker with
    | none =>
      rw [Swapout.step] at taken
      split at taken
      · obtain ⟨job, _, rfl⟩ := Option.map_eq_some_iff.mp taken
        exact kept.same rfl rfl
      · cases taken
    | some worker =>
      obtain ⟨job, busy, advanced⟩ := Option.bind_eq_some_iff.mp taken
      obtain ⟨more, moved, rfl⟩ := Option.map_eq_some_iff.mp advanced
      have some_bds : more.transfer.bds ≠ [] := by
        rw [Job.advance_bds moved]
        exact kept.loaded worker job busy
      exact kept.update some_bds (fun other there _ => there) rfl
  | finish worker =>
    cases worker with
    | none =>
      rw [Swapout.step] at taken
      split at taken
      · split at taken
        · cases taken
          exact kept.same rfl rfl
        · cases taken
      · cases taken
    | some worker =>
      obtain ⟨job, busy, finished⟩ := Option.bind_eq_some_iff.mp taken
      split at finished
      · cases finished
        exact kept.finish worker
      · cases finished
  | endSync =>
    rw [Swapout.step] at taken
    split at taken
    · cases taken
      exact kept.same rfl rfl
    · cases taken

/-- No worker is lost in a run in which every pass that takes a worker finds something to
write. -/
theorem workers_never_lost {workers : Nat} {past : List Cache}
    (run : Transition.Trace (Initial workers) FindsWork step past cache) :
    NoneLost workers cache := by
  refine Transition.Trace.invariant (NoneLost workers) ?_ ?_ run
  · rintro _ rfl
    refine ⟨fun worker below => .inl (List.mem_range.mpr below), fun worker job sent => ?_⟩
    cases sent
  · intro cache input next kept work taken
    exact kept.step work taken

/-- A buffer without a timer is written by a worker. -/
def workerRun : List Input :=
  [.lists [] [⟨0, 1, 5, 0⟩], .pass true false 250, .transferred (some 0),
    .finish (some 0)]

theorem workers_never_lost_one_transfer :
    ∃ past last, Transition.Trace (Initial 1) FindsWork step past last ∧
      last.swapoutFreeWorkers = [0] ∧ NoneLost 1 last := by
  obtain ⟨past, last, run, free⟩ := Transition.Trace.observe FindsWork step (create 1)
    (create_initial 1) workerRun (fun cache => cache.swapoutFreeWorkers) [0] (by decide) (by decide)
  exact ⟨past, last, run, free, workers_never_lost run⟩

/-- A pass with empty lists takes the worker from the chain and sends it nothing. -/
theorem idle_pass_loses_worker :
    ∃ past last, Transition.Trace (Initial 1) (fun _ _ => True) step past last ∧ ¬ NoneLost 1 last := by
  obtain ⟨past, last, run, free⟩ := Transition.Trace.observe (fun _ _ => True) step (create 1)
    (create_initial 1) [.pass true false 250] (fun cache => (cache.swapoutFreeWorkers, (cache.jobs 0).isSome))
    ([], false) (by decide) (by decide)
  refine ⟨past, last, run, fun kept => ?_⟩
  rw [Prod.mk.injEq] at free
  rcases kept.accounted 0 Nat.one_pos with there | ⟨job, sent⟩
  · rw [free.1] at there
    cases there
  · rw [sent] at free
    cases free.2

end Workers

end Rtems.Block.Swapout
