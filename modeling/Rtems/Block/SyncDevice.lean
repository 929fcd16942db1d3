import Mathlib.Data.List.Nodup
import Rtems.Block.Swapout

/-!
# Synchronization of a device

A thread that synchronizes a device waits until the swap-out task finds no more buffers of the
device on its lists. Buffers that were sent to a worker are on no list.

The releases of modified buffers are numbered. What was written is the contents that a release
left. A buffer that is accessed again is taken from the modified list.
-/

namespace Rtems.Block.SyncDevice

open Rtems.Block.Swapout
open Option (bind_eq_some_iff map_eq_some_iff)
open Function (update_of_ne update_self)
open List (mem_append mem_append_left mem_append_right mem_cons mem_filter mem_singleton)
open Prod (fst mk)

/-- The cache, the device of each release, the releases that were written or accessed again, the
number of releases when the active sync was requested, and the syncs that returned. -/
structure State where
  cache : Cache
  released : List Nat
  written : List Nat
  accessed : List Nat
  asked : Nat
  returned : List (Nat × Nat)

/-- The steps of the threads, the swap-out task and its workers. -/
inductive Input where
  | release (dd block holdTimer : Nat)
  | sync (dd block holdTimer : Nat)
  | requestSync (release : Nat)
  | access (release : Nat)
  | syncdev (dd : Nat)
  | pass (updateTimers hasWaiters : Bool) (timerDelta : Nat)
  | transferred (worker : Option Nat)
  | finish (worker : Option Nat)
  | endSync

/-- The transfer of a worker or of the swap-out task. -/
def jobOf (cache : Cache) : Option Nat → Option Job
  | some worker => cache.jobs worker
  | none =>
    match cache.swapout with
    | .writing job => some job
    | _ => none

/-- The buffers that are still to be written. -/
def unfinished (job : Job) : List Buffer := job.transfer.bds.drop job.progress

/-- The lists change. -/
def withLists (state : State) (sync modified : List Buffer) : State :=
  { state with cache := { state.cache with sync := sync, modified := modified } }

/-- The buffer of the next release. -/
def nextBuffer (state : State) (dd block holdTimer : Nat) : Buffer :=
  ⟨state.released.length, dd, block, holdTimer⟩

/-- A step of the cache. -/
def cacheStep (state : State) (input : Swapout.Input) : Option State :=
  (Swapout.step state.cache input).map fun cache => { state with cache := cache }

/-- A modified buffer on the list. -/
def onModified (state : State) (release : Nat) : Prop :=
  ∃ bd ∈ state.cache.modified, bd.release = release
deriving Decidable

/-- The step of an input. -/
def step (state : State) : Input → Option State
  | .release dd block holdTimer =>
    -- `rtems_bdbuf_add_to_modified_list_after_access`
    some { withLists state state.cache.sync
        (state.cache.modified ++ [nextBuffer state dd block holdTimer]) with
      released := state.released ++ [dd] }
  | .sync dd block holdTimer =>
    -- `rtems_bdbuf_sync_after_access`
    some { withLists state (state.cache.sync ++ [nextBuffer state dd block holdTimer])
        state.cache.modified with
      released := state.released ++ [dd] }
  | .requestSync release =>
    -- `rtems_bdbuf_request_sync_for_modified_buffer`
    some (withLists state
      (state.cache.sync ++ state.cache.modified.filter fun bd => bd.release = release)
      (state.cache.modified.filter fun bd => bd.release ≠ release))
  | .access release =>
    -- `rtems_bdbuf_wait_for_access` for a modified buffer
    if onModified state release then
      some { withLists state state.cache.sync
          (state.cache.modified.filter fun bd => bd.release ≠ release) with
        accessed := state.accessed ++ [release] }
    else none
  | .syncdev dd =>
    (cacheStep state (.request dd)).map fun state =>
      { state with asked := state.released.length }
  | .pass updateTimers hasWaiters timerDelta =>
    cacheStep state (.pass updateTimers hasWaiters timerDelta)
  | .transferred worker =>
    (jobOf state.cache worker).bind fun job => job.transfer.bds[job.progress]?.bind fun bd =>
      (cacheStep state (.transferred worker)).map fun state =>
        { state with written := state.written ++ [bd.release] }
  | .finish worker => cacheStep state (.finish worker)
  | .endSync =>
    (cacheStep state .endSync).map fun state =>
      { state with returned := state.returned ++ [(state.cache.syncDevice, state.asked)] }

/-- A run starts with empty lists and some workers. -/
def Initial (workers : Nat) (state : State) : Prop :=
  state = ⟨Swapout.create workers, [], [], [], 0, []⟩

/-- When a sync of a device has returned, the contents that were released before it was requested
have been written, unless they were accessed again. -/
def Durable (state : State) : Prop :=
  ∀ dd count, (dd, count) ∈ state.returned → ∀ release < count,
    state.released[release]? = some dd → release ∈ state.written ∨ release ∈ state.accessed

/-- At the end of a sync no worker has buffers of the device to write that were released before
the sync was requested. -/
def WorkersDone (state : State) : Input → Prop
  | .endSync => ∀ worker job, state.cache.jobs worker = some job → ∀ bd ∈ unfinished job,
      bd.dd = state.cache.syncDevice → state.asked ≤ bd.release
  | _ => True

variable {bd : Buffer}

section Pending

/-- A release whose contents are still to be written. -/
def Pending (cache : Cache) (name : Nat × Nat) : Prop :=
  (∃ bd ∈ cache.sync ++ cache.modified, bd.name = name) ∨
    ∃ worker job, jobOf cache worker = some job ∧ ∃ bd ∈ unfinished job, bd.name = name

/-- Free workers have no transfer and are on the chain once. -/
structure Orderly (cache : Cache) : Prop where
  nodup : cache.swapoutFreeWorkers.Nodup
  idle : ∀ worker ∈ cache.swapoutFreeWorkers, cache.jobs worker = none

variable {cache : Cache} {timers waits : Bool} {delta : Nat}

theorem swapoutModifiedProcessing_mem {syncActive : Bool} {dd : Option Nat}
    {chain transfer : List Buffer} (there : bd ∈ chain ∨ bd ∈ transfer) :
    (∃ kept ∈ (swapoutModifiedProcessing syncActive timers waits delta dd chain
        transfer).chain, kept.name = bd.name) ∨
      ∃ kept ∈ (swapoutModifiedProcessing syncActive timers waits delta dd chain
        transfer).transfer, kept.name = bd.name := by
  have names : bd.name ∈ (chain ++ transfer).map Buffer.name :=
    List.mem_map_of_mem (mem_append.mpr there)
  rw [← (modifiedLoop_names _ _ _).mem_iff] at names
  obtain ⟨kept, here, same⟩ := List.mem_map.mp names
  rcases mem_append.mp here with left | right
  · exact .inl ⟨kept, left, same⟩
  · exact .inr ⟨kept, right, same⟩

/-- A buffer that leaves the lists in a pass is in its transfer. -/
theorem pass_mem {name : Nat × Nat} (listed : ∃ bd ∈ cache.sync ++ cache.modified, bd.name = name) :
    (∃ bd ∈ (takeBuffers cache timers waits delta).sync ++
        (takeBuffers cache timers waits delta).modified, bd.name = name) ∨
      ∃ bd ∈ (passTransfer cache timers waits delta).bds, bd.name = name := by
  have second {bd : Buffer} (same : bd.name = name)
      (there : bd ∈ cache.modified ∨ bd ∈ (scanSync cache waits delta).transfer) :
      (∃ bd ∈ (takeBuffers cache timers waits delta).sync ++
          (takeBuffers cache timers waits delta).modified, bd.name = name) ∨
        ∃ bd ∈ (passTransfer cache timers waits delta).bds, bd.name = name := by
    rcases swapoutModifiedProcessing_mem there with ⟨kept, here, equal⟩ | ⟨kept, here, equal⟩
    · exact .inl ⟨kept, mem_append_right _ here, equal.trans same⟩
    · exact .inr ⟨kept, here, equal.trans same⟩
  obtain ⟨bd, there, same⟩ := listed
  rcases mem_append.mp there with sync | modified
  · rcases swapoutModifiedProcessing_mem (.inl sync) with ⟨kept, here, equal⟩ | ⟨kept, here, equal⟩
    · exact .inl ⟨kept, mem_append_left _ here, equal.trans same⟩
    · exact second (equal.trans same) (.inr here)
  · exact second same (.inl modified)

theorem jobOf_none_of_idle (idle : cache.swapout = .idle) : jobOf cache none = none := by
  rw [jobOf, idle]

/-- A pass forgets no release. -/
theorem Pending.pass (orderly : Orderly cache) (idle : cache.swapout = .idle) {name : Nat × Nat}
    (pending : Pending cache name) :
    Pending (swapoutProcessing cache timers waits delta) name := by
  have outcome := swapoutProcessing_outcome cache timers waits delta
  rcases pending with listed | ⟨worker, job, busy, bd, there, same⟩
  · generalize swapoutProcessing cache timers waits delta = next at outcome
    rcases @pass_mem cache timers waits delta name listed with
      kept | ⟨bd, there, same⟩
    · cases outcome with
      | sent | writing | ending | nothing => exact .inl kept
    · cases outcome with
      | sent worker rest inactive free some_bds =>
        exact .inr ⟨some worker, _, update_self _ _ _, bd, there, same⟩
      | writing nobody some_bds => exact .inr ⟨none, _, rfl, bd, there, same⟩
      | ending active empty | nothing inactive empty =>
        rw [empty] at there
        cases there
  · right
    cases worker with
    | none =>
      rw [jobOf_none_of_idle idle] at busy
      cases busy
    | some worker =>
      have sent : cache.jobs worker = some job := busy
      refine ⟨some worker, job, ?_, bd, there, same⟩
      generalize swapoutProcessing cache timers waits delta = next at outcome
      cases outcome with
      | sent other rest inactive free some_bds =>
        have ne : worker ≠ other := by
          rintro rfl
          have none := orderly.idle worker (free ▸ List.mem_cons_self)
          rw [none] at sent
          cases sent
        exact (update_of_ne ne _ _).trans sent
      | writing | ending | nothing => exact sent

/-- Behind a pass that ends a sync there is no buffer of the device on the lists. -/
theorem pass_ending (idle : cache.swapout = .idle)
    (ending : (swapoutProcessing cache timers waits delta).swapout = .ending) :
    cache.syncActive = true ∧ ∀ bd ∈ (swapoutProcessing cache timers waits delta).sync ++
        (swapoutProcessing cache timers waits delta).modified,
        bd.dd ≠ cache.syncDevice := by
  have outcome := swapoutProcessing_outcome cache timers waits delta
  generalize swapoutProcessing cache timers waits delta = next at outcome ending
  cases outcome with
  | sent | nothing =>
    exact absurd (idle.symm.trans ending) (by rintro ⟨⟩)
  | writing => cases ending
  | ending active empty =>
    refine ⟨active, fun bd there => ?_⟩
    have sync := @modifiedLoop_device false false waits delta cache.syncDevice [] cache.sync
    have first : scanSync cache waits delta =
        modifiedLoop false true false waits delta (some cache.syncDevice) []
          cache.sync := by
      rw [scanSync, active, if_pos rfl]
      rfl
    have second : scanModified cache timers waits delta =
        modifiedLoop false true timers waits delta (some cache.syncDevice)
          (scanSync cache waits delta).transfer cache.modified := by
      rw [scanModified, swapoutModifiedProcessing, active, first, sync.1]
      rfl
    rcases mem_append.mp there with left | right
    · have here : bd ∈ (scanSync cache waits delta).chain := left
      rw [first] at here
      exact sync.2 bd here
    · have here : bd ∈ (scanModified cache timers waits delta).chain := right
      rw [second] at here
      exact (modifiedLoop_device _ _ _).2 bd here

end Pending

variable {worker : Option Nat}

section Jobs

/-- Only the transfer of one task changes. -/
structure Moves (cache next : Cache) (worker : Option Nat) (after : Option Job) : Prop where
  sync : next.sync = cache.sync
  modified : next.modified = cache.modified
  here : jobOf next worker = after
  others : ∀ other, other ≠ worker → jobOf next other = jobOf cache other
  ending : next.swapout = .ending → cache.swapout = .ending
  active : next.syncActive = cache.syncActive
  device : next.syncDevice = cache.syncDevice

variable {cache next : Cache} {job : Job}

theorem moves_worker (cache : Cache) (worker : Nat) (after : Option Job) (free : List Nat) :
    Moves cache { cache with
      jobs := Function.update cache.jobs worker after
      swapoutFreeWorkers := free } (some worker) after := by
  refine ⟨rfl, rfl, update_self _ _ _, ?_, id, rfl, rfl⟩
  intro other different
  cases other with
  | none => rfl
  | some other =>
    have ne : other ≠ worker := fun same => different (congrArg some same)
    exact update_of_ne ne _ _

theorem moves_swapout {task : Task} (writing : task ≠ .ending) :
    Moves cache { cache with swapout := task } none (jobOf { cache with swapout := task } none) := by
  refine ⟨rfl, rfl, rfl, ?_, fun ending => absurd ending writing, rfl, rfl⟩
  intro other ne
  cases other with
  | none => exact absurd rfl ne
  | some other => rfl

/-- A task has written one more buffer. -/
theorem step_transferred (busy : jobOf cache worker = some job)
    (taken : Swapout.step cache (.transferred worker) = some next) :
    ∃ more, job.advance = some more ∧ Moves cache next worker (some more) := by
  cases worker with
  | none =>
    rw [Swapout.step] at taken
    rw [jobOf] at busy
    split at taken
    next there =>
      rw [there] at busy
      cases busy
      obtain ⟨more, advanced, rfl⟩ := map_eq_some_iff.mp taken
      exact ⟨more, advanced, moves_swapout (by rintro ⟨⟩)⟩
    next => cases taken
  | some worker =>
    obtain ⟨other, sent, advanced⟩ := bind_eq_some_iff.mp taken
    cases sent.symm.trans busy
    obtain ⟨more, moved, rfl⟩ := map_eq_some_iff.mp advanced
    exact ⟨more, moved, moves_worker cache worker (some more) cache.swapoutFreeWorkers⟩

/-- A task has finished its transfer. -/
theorem step_finish (taken : Swapout.step cache (.finish worker) = some next) :
    ∃ job, jobOf cache worker = some job ∧ job.complete ∧ Moves cache next worker none := by
  cases worker with
  | none =>
    rw [Swapout.step] at taken
    split at taken
    next job there =>
      split at taken
      next complete =>
        cases taken
        refine ⟨job, ?_, complete, moves_swapout (by rintro ⟨⟩)⟩
        rw [jobOf, there]
      next => cases taken
    next => cases taken
  | some worker =>
    obtain ⟨job, sent, finished⟩ := bind_eq_some_iff.mp taken
    split at finished
    next complete =>
      cases finished
      exact ⟨job, sent, complete, moves_worker cache worker none _⟩
    next => cases finished

theorem unfinished_advance {more : Job} (advanced : job.advance = some more)
    (current : job.transfer.bds[job.progress]? = some bd) :
    unfinished job = bd :: unfinished more := by
  rw [Job.advance] at advanced
  split at advanced
  next inside =>
    cases advanced
    obtain ⟨_, value⟩ := List.getElem?_eq_some_iff.mp current
    rw [unfinished, List.drop_eq_getElem_cons inside, value]
    rfl
  next => cases advanced

theorem unfinished_complete (complete : job.complete) : unfinished job = [] := by
  rw [unfinished, complete]
  exact List.drop_length

/-- The release of the buffer that was written is not pending any more, the others are. -/
theorem Pending.transferred {more : Job} (busy : jobOf cache worker = some job)
    (split : unfinished job = bd :: unfinished more) (moves : Moves cache next worker (some more))
    {name : Nat × Nat} (pending : Pending cache name) : Pending next name ∨ bd.name = name := by
  rcases pending with listed | ⟨other, its, sent, one, there, same⟩
  · rw [← moves.sync, ← moves.modified] at listed
    exact .inl (.inl listed)
  · by_cases here : other = worker
    · subst here
      cases busy.symm.trans sent
      rw [split] at there
      rcases mem_cons.mp there with rfl | rest
      · exact .inr same
      · exact .inl (.inr ⟨other, more, moves.here, one, rest, same⟩)
    · exact .inl (.inr ⟨other, its, (moves.others other here).trans sent, one, there, same⟩)

theorem Pending.finish (busy : jobOf cache worker = some job) (complete : job.complete)
    (moves : Moves cache next worker none) {name : Nat × Nat} (pending : Pending cache name) :
    Pending next name := by
  rcases pending with listed | ⟨other, its, sent, one, there, same⟩
  · rw [← moves.sync, ← moves.modified] at listed
    exact .inl listed
  · by_cases here : other = worker
    · subst here
      cases busy.symm.trans sent
      rw [unfinished_complete complete] at there
      cases there
    · exact .inr ⟨other, its, (moves.others other here).trans sent, one, there, same⟩

end Jobs

section Chain

variable {cache next : Cache}

theorem Orderly.same (orderly : Orderly cache)
    (free : next.swapoutFreeWorkers.Sublist cache.swapoutFreeWorkers)
    (jobs : next.jobs = cache.jobs) : Orderly next := by
  refine ⟨orderly.nodup.sublist free, fun worker there => ?_⟩
  rw [jobs]
  exact orderly.idle worker (free.subset there)

theorem takeBuffers_free (cache : Cache) (timers waits : Bool) (delta : Nat) :
    (takeBuffers cache timers waits delta).swapoutFreeWorkers.Sublist
      cache.swapoutFreeWorkers := by
  rw [takeBuffers]
  split
  · exact .refl _
  · exact List.tail_sublist _

theorem Orderly.pass {timers waits : Bool} {delta : Nat} (orderly : Orderly cache) :
    Orderly (swapoutProcessing cache timers waits delta) := by
  have outcome := swapoutProcessing_outcome cache timers waits delta
  have kept := takeBuffers_free cache timers waits delta
  generalize swapoutProcessing cache timers waits delta = next at outcome
  cases outcome with
  | sent worker rest inactive free some_bds =>
    have tail : (takeBuffers cache timers waits delta).swapoutFreeWorkers =
        rest := by
      rw [takeBuffers, inactive, if_neg (by decide), free, List.tail_cons]
    have nodup := orderly.nodup
    rw [free, List.nodup_cons] at nodup
    refine ⟨tail ▸ nodup.2, fun other there => ?_⟩
    have here : other ∈ rest := tail ▸ there
    have ne : other ≠ worker := fun same => nodup.1 (same ▸ here)
    refine (update_of_ne ne _ _).trans ?_
    exact orderly.idle other (free ▸ List.mem_cons_of_mem _ here)
  | writing | ending | nothing => exact orderly.same kept rfl

theorem Orderly.step {input : Swapout.Input} (orderly : Orderly cache)
    (taken : Swapout.step cache input = some next) : Orderly next := by
  cases input with
  | lists sync modified =>
    cases taken
    exact orderly.same (.refl _) rfl
  | request dd =>
    rw [Swapout.step] at taken
    split at taken
    · cases taken
    · cases taken
      exact orderly.same (.refl _) rfl
  | pass timers waits delta =>
    rw [Swapout.step] at taken
    split at taken
    · cases taken
      exact orderly.pass
    · cases taken
  | transferred worker =>
    cases worker with
    | none =>
      rw [Swapout.step] at taken
      split at taken
      · obtain ⟨job, _, rfl⟩ := map_eq_some_iff.mp taken
        exact orderly.same (.refl _) rfl
      · cases taken
    | some worker =>
      obtain ⟨job, busy, advanced⟩ := bind_eq_some_iff.mp taken
      obtain ⟨more, moved, rfl⟩ := map_eq_some_iff.mp advanced
      refine ⟨orderly.nodup, fun other there => ?_⟩
      have none := orderly.idle other there
      have ne : other ≠ worker := by
        rintro rfl
        rw [none] at busy
        cases busy
      exact (update_of_ne ne _ _).trans none
  | finish worker =>
    cases worker with
    | none =>
      rw [Swapout.step] at taken
      split at taken
      · split at taken
        · cases taken
          exact orderly.same (.refl _) rfl
        · cases taken
      · cases taken
    | some worker =>
      obtain ⟨job, busy, finished⟩ := bind_eq_some_iff.mp taken
      split at finished
      · cases finished
        have new : worker ∉ cache.swapoutFreeWorkers := fun there => by
          rw [orderly.idle worker there] at busy
          cases busy
        refine ⟨List.Nodup.append orderly.nodup (List.nodup_singleton _) ?_, fun other there => ?_⟩
        · exact List.disjoint_singleton.mpr new
        · by_cases here : other = worker
          · rw [here]
            exact update_self _ _ _
          · refine (update_of_ne here _ _).trans ?_
            rcases mem_append.mp there with old | last
            · exact orderly.idle other old
            · exact absurd (mem_singleton.mp last) here
      · cases finished
  | endSync =>
    rw [Swapout.step] at taken
    split at taken
    · cases taken
      exact orderly.same (.refl _) rfl
    · cases taken

end Chain

section Sync

/-- Every release is pending, written or accessed again. Behind a pass that ends a sync, the
buffers of the device on the lists were released after the request. -/
structure Located (state : State) : Prop where
  orderly : Orderly state.cache
  located : ∀ release dd, state.released[release]? = some dd →
    Pending state.cache (release, dd) ∨ release ∈ state.written ∨ release ∈ state.accessed
  asked : state.asked ≤ state.released.length
  active : state.cache.swapout = .ending → state.cache.syncActive = true
  ending : state.cache.swapout = .ending → ∀ bd ∈ state.cache.sync ++ state.cache.modified,
    bd.dd = state.cache.syncDevice → state.asked ≤ bd.release
  counted : ∀ dd count, (dd, count) ∈ state.returned → count ≤ state.released.length
  durable : Durable state

variable {st : State}
variable {state next : State}

theorem jobOf_lists (cache : Cache) (sync modified : List Buffer) (worker : Option Nat) :
    jobOf { cache with sync := sync, modified := modified } worker = jobOf cache worker := by
  cases worker <;> rfl

variable {cache : Cache}

theorem Pending.lists {sync modified : List Buffer} {name : Nat × Nat}
    (pending : Pending cache name)
    (kept : ∀ bd ∈ cache.sync ++ cache.modified, bd.name = name → bd ∈ sync ++ modified) :
    Pending { cache with sync := sync, modified := modified } name := by
  rcases pending with ⟨bd, there, same⟩ | ⟨worker, job, busy, sent⟩
  · exact .inl ⟨bd, kept bd there same, same⟩
  · exact .inr ⟨worker, job, (jobOf_lists _ _ _ _).trans busy, sent⟩

/-- A thread adds a buffer to a list. -/
theorem Located.add (located : Located st) {sync modified : List Buffer}
    {dd block holdTimer : Nat}
    (lists : (sync ++ modified).Perm
      (nextBuffer st dd block holdTimer :: (st.cache.sync ++ st.cache.modified))) :
    Located { withLists st sync modified with released := st.released ++ [dd] } := by
  have longer : st.released.length ≤ (st.released ++ [dd]).length := by
    rw [List.length_append]
    exact Nat.le_add_right _ _
  constructor
  · exact located.orderly.same (.refl _) rfl
  · intro release dev there
    by_cases old : release < st.released.length
    · rw [List.getElem?_append_left old] at there
      rcases located.located release dev there with pending | done
      · refine .inl (pending.lists fun bd listed _ => ?_)
        exact lists.mem_iff.mpr (List.mem_cons_of_mem _ listed)
      · exact .inr done
    · have inside := (List.getElem?_eq_some_iff.mp there).1
      rw [List.length_append, List.length_singleton] at inside
      obtain rfl : release = st.released.length := by omega
      rw [List.getElem?_concat_length] at there
      cases there
      exact .inl (.inl ⟨_, lists.mem_iff.mpr List.mem_cons_self, rfl⟩)
  · exact Nat.le_trans located.asked longer
  · exact located.active
  · intro ending bd there dev
    rcases mem_cons.mp (lists.mem_iff.mp there) with rfl | old
    · exact located.asked
    · exact located.ending ending bd old dev
  · intro dev count there
    exact Nat.le_trans (located.counted dev count there) longer
  · intro dev count there release below same
    have old := Nat.lt_of_lt_of_le below (located.counted dev count there)
    rw [List.getElem?_append_left old] at same
    exact located.durable dev count there release below same

section

variable (located : Located st)
include located

/-- A thread moves a modified buffer to the buffers to sync. -/
theorem Located.requestSync (release : Nat) : Located (withLists st
      (st.cache.sync ++ st.cache.modified.filter fun bd => bd.release = release)
      (st.cache.modified.filter fun bd => bd.release ≠ release)) := by
  have same (bd : Buffer) :
      bd ∈ (st.cache.sync ++ st.cache.modified.filter fun bd => bd.release = release) ++
        (st.cache.modified.filter fun bd => bd.release ≠ release) ↔
      bd ∈ st.cache.sync ++ st.cache.modified := by
    simp only [mem_append, mem_filter, decide_eq_true_eq]
    by_cases here : bd.release = release
    · simp only [here, and_true, ne_eq, not_true_eq_false, and_false, or_false]
    · simp only [here, and_false, or_false, ne_eq, not_false_eq_true, and_true]
  refine ⟨located.orderly.same (.refl _) rfl, ?_, located.asked, located.active, ?_,
    located.counted, located.durable⟩
  · intro other dd there
    rcases located.located other dd there with pending | done
    · exact .inl (pending.lists fun bd listed _ => (same bd).mpr listed)
    · exact .inr done
  · intro ending bd there
    exact located.ending ending bd ((same bd).mp there)

/-- A thread takes a modified buffer from the list. -/
theorem Located.access (release : Nat) : Located { withLists st st.cache.sync
        (st.cache.modified.filter fun bd => bd.release ≠ release) with
      accessed := st.accessed ++ [release] } := by
  refine ⟨located.orderly.same (.refl _) rfl, ?_, located.asked, located.active, ?_,
    located.counted, ?_⟩
  · intro other dd there
    by_cases here : other = release
    · exact .inr (.inr (mem_append_right _ (mem_singleton.mpr here)))
    · rcases located.located other dd there with pending | written | accessed
      · refine .inl (pending.lists fun bd listed same => ?_)
        have number : bd.release = other := congrArg fst same
        rcases mem_append.mp listed with sync | modified
        · exact mem_append_left _ sync
        · refine mem_append_right _ (mem_filter.mpr ⟨modified, ?_⟩)
          exact decide_eq_true (number.symm ▸ here)
      · exact .inr (.inl written)
      · exact .inr (.inr (mem_append_left _ accessed))
  · intro ending bd there
    refine located.ending ending bd ?_
    rcases mem_append.mp there with sync | modified
    · exact mem_append_left _ sync
    · exact mem_append_right _ (mem_filter.mp modified).1
  · intro dd count there other below same
    rcases located.durable dd count there other below same with written | accessed
    · exact .inl written
    · exact .inr (mem_append_left _ accessed)

theorem Located.syncdev {dd : Nat} (taken : Swapout.step st.cache (.request dd) = some cache) :
    Located { st with cache := cache, asked := st.released.length } := by
  have orderly := located.orderly.step taken
  rw [Swapout.step] at taken
  split at taken
  next => cases taken
  next inactive =>
    cases taken
    have running : st.cache.swapout ≠ .ending := fun ending => inactive (located.active ending)
    refine ⟨orderly, ?_, Nat.le_refl _, fun ending => absurd ending running,
      fun ending => absurd ending running, located.counted, located.durable⟩
    intro release dev there
    rcases located.located release dev there with pending | done
    · left
      rcases pending with listed | ⟨worker, job, busy, sent⟩
      · exact .inl listed
      · refine .inr ⟨worker, job, ?_, sent⟩
        cases worker <;> exact busy
    · exact .inr done

theorem Located.pass {timers waits : Bool} {delta : Nat}
    (taken : Swapout.step st.cache (.pass timers waits delta) = some cache) :
    Located { st with cache := cache } := by
  have orderly := located.orderly.step taken
  rw [Swapout.step] at taken
  split at taken
  next idle =>
    cases taken
    have dev : (swapoutProcessing st.cache timers waits delta).syncDevice =
        st.cache.syncDevice ∧
        (swapoutProcessing st.cache timers waits delta).syncActive =
          st.cache.syncActive := by
      have outcome := swapoutProcessing_outcome st.cache timers waits delta
      generalize swapoutProcessing st.cache timers waits delta = next at outcome
      cases outcome <;> exact ⟨rfl, rfl⟩
    refine ⟨orderly, ?_, located.asked, ?_, ?_, located.counted, located.durable⟩
    · intro release dd there
      rcases located.located release dd there with pending | done
      · exact .inl (pending.pass located.orderly idle)
      · exact .inr done
    · intro ending
      exact dev.2.trans (pass_ending idle ending).1
    · intro ending bd there same
      exact absurd (same.trans dev.1) ((pass_ending idle ending).2 bd there)
  next => cases taken

/-- A task moves on with its transfer. -/
theorem Located.moves {after : Option Job} (moves : Moves st.cache cache worker after)
    (orderly : Orderly cache) {written : List Nat}
    (kept : ∀ release ∈ st.written, release ∈ written)
    (pending : ∀ name, Pending st.cache name → Pending cache name ∨ name.1 ∈ written) :
    Located { st with cache := cache, written := written } := by
  refine ⟨orderly, ?_, located.asked, ?_, ?_, located.counted, ?_⟩
  · intro release dd there
    rcases located.located release dd there with waiting | done | again
    · rcases pending _ waiting with still | done
      · exact .inl still
      · exact .inr (.inl done)
    · exact .inr (.inl (kept release done))
    · exact .inr (.inr again)
  · intro ending
    exact moves.active.trans (located.active (moves.ending ending))
  · intro ending
    rw [moves.sync, moves.modified, moves.device]
    exact located.ending (moves.ending ending)
  · intro dd count there release below same
    rcases located.durable dd count there release below same with done | again
    · exact .inl (kept release done)
    · exact .inr again

theorem Located.transferred {job : Job} (busy : jobOf st.cache worker = some job)
    (current : job.transfer.bds[job.progress]? = some bd)
    (taken : Swapout.step st.cache (.transferred worker) = some cache) :
    Located { st with cache := cache, written := st.written ++ [bd.release] } := by
  obtain ⟨more, advanced, moves⟩ := step_transferred busy taken
  have split := unfinished_advance advanced current
  refine located.moves moves (located.orderly.step taken)
    (fun release there => mem_append_left _ there) fun name pending => ?_
  rcases pending.transferred busy split moves with still | same
  · exact .inl still
  · exact .inr (mem_append_right _ (mem_singleton.mpr (congrArg fst same.symm)))

theorem Located.finish (taken : Swapout.step st.cache (.finish worker) = some cache) :
    Located { st with cache := cache } := by
  obtain ⟨job, busy, complete, moves⟩ := step_finish taken
  exact located.moves moves (located.orderly.step taken) (fun _ there => there)
    fun name pending => .inl (pending.finish busy complete moves)

/-- A sync returns. Nothing of the device that was released before the request is pending. -/
theorem Located.endSync (done : WorkersDone st .endSync)
    (taken : Swapout.step st.cache .endSync = some cache) :
    Located { st with
      cache := cache
      returned := st.returned ++ [(cache.syncDevice, st.asked)] } := by
  have orderly := located.orderly.step taken
  rw [Swapout.step] at taken
  split at taken
  next ending =>
    cases taken
    refine ⟨orderly, ?_, located.asked, (by rintro ⟨⟩), (by rintro ⟨⟩), ?_, ?_⟩
    · intro release dd there
      rcases located.located release dd there with pending | done
      · left
        rcases pending with listed | ⟨worker, job, busy, sent⟩
        · exact .inl listed
        · cases worker with
          | none =>
            rw [jobOf, ending] at busy
            cases busy
          | some worker => exact .inr ⟨some worker, job, busy, sent⟩
      · exact .inr done
    · intro dd count there
      rcases mem_append.mp there with old | last
      · exact located.counted dd count old
      · rw [mem_singleton, mk.injEq] at last
        rw [last.2]
        exact located.asked
    · intro dd count there release below same
      rcases mem_append.mp there with old | last
      · exact located.durable dd count old release below same
      · rw [mem_singleton, mk.injEq] at last
        obtain ⟨rfl, rfl⟩ := last
        rcases located.located release _ same with pending | written
        · rcases pending with ⟨bd, listed, name⟩ | ⟨worker, job, busy, bd, waiting, name⟩
          · rw [Buffer.name, mk.injEq] at name
            have late := located.ending ending bd listed name.2
            omega
          · rw [Buffer.name, mk.injEq] at name
            cases worker with
            | none =>
              rw [jobOf, ending] at busy
              cases busy
            | some worker =>
              have late := done worker job busy bd waiting name.2
              omega
        · exact written
  next => cases taken

end

/-- Every step of a run keeps track of the releases. -/
theorem Located.step {input : Input} (located : Located st) (done : WorkersDone st input)
    (taken : SyncDevice.step st input = some next) : Located next := by
  cases input with
  | release dd block holdTimer =>
    cases taken
    refine @Located.add st located _ _ dd block holdTimer ?_
    rw [← List.append_assoc]
    exact List.perm_append_singleton _ _
  | sync dd block holdTimer =>
    cases taken
    refine @Located.add st located _ _ dd block holdTimer ?_
    rw [List.append_assoc]
    exact List.perm_middle
  | requestSync release =>
    cases taken
    exact located.requestSync release
  | access release =>
    rw [SyncDevice.step] at taken
    split at taken
    · cases taken
      exact located.access release
    · cases taken
  | syncdev dd =>
    obtain ⟨middle, moved, rfl⟩ := map_eq_some_iff.mp taken
    obtain ⟨cache, requested, rfl⟩ := map_eq_some_iff.mp moved
    exact located.syncdev requested
  | pass timers waits delta =>
    obtain ⟨cache, passed, rfl⟩ := map_eq_some_iff.mp taken
    exact located.pass passed
  | transferred worker =>
    obtain ⟨job, busy, rest⟩ := bind_eq_some_iff.mp taken
    obtain ⟨bd, current, moved⟩ := bind_eq_some_iff.mp rest
    obtain ⟨middle, advanced, rfl⟩ := map_eq_some_iff.mp moved
    obtain ⟨cache, written, rfl⟩ := map_eq_some_iff.mp advanced
    exact located.transferred busy current written
  | finish worker =>
    obtain ⟨cache, finished, rfl⟩ := map_eq_some_iff.mp taken
    exact located.finish finished
  | endSync =>
    obtain ⟨middle, moved, rfl⟩ := map_eq_some_iff.mp taken
    obtain ⟨cache, ended, rfl⟩ := map_eq_some_iff.mp moved
    exact located.endSync done ended

/-- A sync is a durability point in every run in which no worker has buffers of the device to
write when a sync ends. -/
theorem sync_device_durable {workers : Nat} {past : List State}
    (run : Transition.Trace (Initial workers) WorkersDone SyncDevice.step past state) :
    Durable state := by
  have located : Located state := by
    refine Transition.Trace.invariant Located ?_ ?_ run
    · rintro _ rfl
      refine ⟨⟨List.nodup_range, fun _ _ => rfl⟩, ?_, Nat.le_refl 0, (by rintro ⟨⟩),
        (by rintro ⟨⟩), ?_, ?_⟩
      · intro release dd there
        cases there
      · intro dd count there
        cases there
      · intro dd count there
        cases there
    · intro state input next located done taken
      exact located.step done taken
  exact located.durable

/-- A worker writes a buffer before the device is synchronized. -/
def writtenBefore : List Input :=
  [.release 1 5 100, .pass true false 250, .transferred (some 0), .finish (some 0), .syncdev 1,
    .pass false false 250, .endSync]

/-- A worker has a buffer while the device is synchronized. -/
def stillWriting : List Input :=
  [.release 1 5 100, .pass true false 250, .syncdev 1, .pass false false 250, .endSync]

/-- The start of a run with one worker. -/
def oneWorker : State := ⟨Swapout.create 1, [], [], [], 0, []⟩

theorem oneWorker_initial : Initial 1 oneWorker := rfl

theorem sync_device_durable_written_before :
    ∃ past last, Transition.Trace (Initial 1) WorkersDone SyncDevice.step past last ∧
      (last.returned, last.written) = ([(1, 1)], [0]) ∧ Durable last := by
  have allowed : Transition.Allowed WorkersDone SyncDevice.step oneWorker writtenBefore := by
    refine ⟨trivial, trivial, trivial, trivial, trivial, trivial, ?_, trivial⟩
    intro worker job busy
    cases worker <;> cases busy
  obtain ⟨past, last, run, seen⟩ := Transition.Trace.observe WorkersDone SyncDevice.step oneWorker
    oneWorker_initial writtenBefore (fun state => (state.returned, state.written))
    ([(1, 1)], [0]) allowed (by decide)
  exact ⟨past, last, run, seen, sync_device_durable run⟩

/-- The sync returns while the worker has not written the buffer. -/
theorem sync_returns_before_worker :
    ∃ past last, Transition.Trace (Initial 1) (fun _ _ => True) SyncDevice.step past last ∧
      ¬ Durable last := by
  obtain ⟨past, last, run, seen⟩ := Transition.Trace.observe (fun _ _ => True) SyncDevice.step
    oneWorker oneWorker_initial stillWriting
    (fun state => (state.returned, state.released, state.written, state.accessed))
    ([(1, 1)], [1], [], []) (by decide) (by decide)
  refine ⟨past, last, run, fun durable => ?_⟩
  simp only [mk.injEq] at seen
  obtain ⟨returned, released, written, accessed⟩ := seen
  have there : (1, 1) ∈ last.returned := returned ▸ List.mem_singleton_self _
  have first : last.released[0]? = some 1 := by rw [released]; rfl
  rcases durable 1 1 there 0 Nat.one_pos first with done | again
  · rw [written] at done
    cases done
  · rw [accessed] at again
    cases again

end Sync

end Rtems.Block.SyncDevice
