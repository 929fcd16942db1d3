import Rtems.Block.FlashRecover
import Rtems.Library.Transition

/-!
# Runs of the flash disk

The disk is attached, and then there are requests in any order, each with its own handlers. A write
takes several steps; the state in front of each of its compactions is a state of the run.
-/

namespace Rtems.Block.FlashDisk

open LinkedQueues Transition

variable {n blockSize : Nat} {δ : Type}

/-- The requests, and the next step of a write. -/
inductive Request (blockSize : Nat) where
  | read (block : BitVec 32)
  | write (block : BitVec 32) (buffer : Page blockSize)
  | compact
  | eraseUsed
  | proceed

/-- One step. A request waits until the write before it is done. -/
def step (c : Config n blockSize) :
    Stage blockSize × Flashdisk n δ → Handlers n blockSize δ × Request blockSize →
      Option (Stage blockSize × Flashdisk n δ)
  | (stage, fd), (h, .proceed) => advance c h stage fd
  | (.done _, fd), (h, .read block) => some (.done 0, (readBlock c h fd block).2)
  | (.done _, fd), (h, .write block buffer) => beginWrite c h fd block buffer
  | (.done _, fd), (h, .compact) => (compact c h fd).map fun (ret, fd) => (.done ret, fd)
  | (.done _, fd), (h, .eraseUsed) => (eraseUsed h fd).map fun (ret, fd) => (.done ret, fd)
  | _, _ => none

/-- A write request is its steps, one after the other. -/
theorem feed_writeBlock (c : Config n blockSize) (h : Handlers n blockSize δ) (fd : Flashdisk n δ)
    (block : BitVec 32) (buffer : Page blockSize) (ret : Nat) :
    feed (step c) (.done ret, fd) ((h, .write block buffer) :: List.replicate 5 (h, .proceed)) =
      writeBlock c h fd block buffer := by
  simp only [List.replicate_succ, feed]
  congr 1
  funext first
  congr 1
  funext second
  congr 1
  funext third
  congr 1
  funext fourth
  congr 1
  funext fifth
  exact Option.bind_fun_some _

/-- The disk has been attached with handlers of a kind. -/
def Attached (c : Config n blockSize) (kind : Handlers n blockSize δ → Prop)
    (state : Stage blockSize × Flashdisk n δ) : Prop :=
  state.1 = .done 0 ∧
    ∃ h start, kind h ∧ recoverBlockMappings c h start = some (0, state.2)

/-- The flash holds at most one active page of a block, and no write fails. -/
def Consistent (c : Config n blockSize) (h : Handlers n blockSize δ) : Prop :=
  ∃ table, Distinct c table ∧ Attaching table h

/-- Where a driver failure or a lack of room does no harm. -/
def Permitted (c : Config n blockSize) :
    Stage blockSize × Flashdisk n δ → Handlers n blockSize δ × Request blockSize → Prop
  | (stage, fd), (h, .proceed) => Careful c h ∧ Provided c stage fd
  | _, (_, .read _) => True
  | _, (h, .write _ _) => Careful c h
  | (_, fd), (h, .compact) => Careful c h ∧ Spacious c fd
  | _, (_, .eraseUsed) => True

/-- Every segment is on one of the queues, which are proper lists with their tails and counts, the
counters of the segments are those of the page descriptors, and so is the number of erased blocks. -/
structure Exact (fd : Flashdisk n δ) : Prop where
  queued : ∃ lists, Holds fd.queues lists ∧ ∀ s, ∃! name, s ∈ lists name
  active : ∀ s, (fd.segments s).pagesActive = (fd.segments s).countActive
  used : ∀ s, (fd.segments s).pagesUsed = (fd.segments s).countUsed
  erased : fd.erasedBlocks = ∑ s with (fd.segments s).failed = false, (fd.segments s).countErased

variable {c : Config n blockSize} {h : Handlers n blockSize δ} {fd : Flashdisk n δ}
  {lists : QueueName → List (Fin n)} {stale : BitVec 32 → Prop} {stage : Stage blockSize}

theorem Kept.exact (kept : Kept c stale fd lists) : Exact fd where
  queued := by
    refine ⟨lists, kept.books.holds, fun s => ?_⟩
    obtain ⟨name, member⟩ := kept.placed s
    exact ⟨name, member, fun other there => kept.books.holds.disjoint other name s there member⟩
  active s := (kept.books.counted s (by simp)).active
  used s := (kept.books.counted s (by simp)).used
  erased := by
    rw [kept.books.total, Nat.add_zero, Flashdisk.erasedPages]
    simp

/-- The books are exact at every stage of a write. -/
theorem Underway.exact (underway : Underway c lists stage fd) : Exact fd := by
  cases stage with
  | foreground | sizing | claiming | full | stored | done => exact Kept.exact underway

theorem readBlock_device (c : Config n blockSize) (h : Handlers n blockSize δ) (fd : Flashdisk n δ)
    (block : BitVec 32) : ∃ device, (readBlock c h fd block).2 = { fd with device := device } := by
  rw [readBlock]
  by_cases outside : block.toNat ≥ c.blockCount - c.unavailBlocks
  · rw [if_pos outside]
    exact ⟨fd.device, rfl⟩
  rw [if_neg outside]
  cases fd.blocks block with
  | none => exact ⟨fd.device, rfl⟩
  | some place =>
    dsimp only
    split
    · split
      · exact ⟨_, rfl⟩
      · split
        · exact ⟨_, rfl⟩
        · exact ⟨_, rfl⟩
    · exact ⟨fd.device, rfl⟩

/-- The request fits the stage. -/
def Accepted (stage : Stage blockSize) (request : Request blockSize) : Prop :=
  request = .proceed ∨ ∃ ret, stage = .done ret

variable {request : Request blockSize}

/-- A permitted step ends, with the books in order. -/
theorem step_underway (underway : Underway c lists stage fd)
    (permitted : Permitted c (stage, fd) (h, request)) (accepted : Accepted stage request) :
    ∃ next disk after, step c (stage, fd) (h, request) = some (next, disk) ∧
      Underway c after next disk := by
  rcases accepted with rfl | ⟨ret, rfl⟩
  · obtain ⟨careful, provided⟩ := permitted
    exact advance_spec careful underway provided
  cases request with
  | read block =>
    obtain ⟨device, same⟩ := readBlock_device c h fd block
    refine ⟨.done 0, _, lists, rfl, ?_⟩
    rw [same]
    exact ⟨underway.books.setDevice device, underway.placed⟩
  | write block buffer => exact beginWrite_spec permitted underway
  | compact =>
    obtain ⟨careful, spacious⟩ := permitted
    obtain ⟨ret, disk, after, result, -, kept⟩ := compact_spec careful underway
      fun starving => spacious starving lists underway.books.holds
    exact ⟨.done ret, disk, after, by rw [step, result]; rfl, kept⟩
  | eraseUsed =>
    obtain ⟨ret, disk, after, result, kept⟩ := eraseUsed_spec (h := h) underway
    exact ⟨.done ret, disk, after, by rw [step, result]; rfl, kept⟩
  | proceed =>
    obtain ⟨careful, provided⟩ := permitted
    exact advance_spec careful underway provided

theorem accepted_of_step {next : Stage blockSize × Flashdisk n δ}
    (taken : step c (stage, fd) (h, request) = some next) : Accepted stage request := by
  cases request with
  | proceed => exact Or.inl rfl
  | _ =>
    cases stage with
    | done ret => exact Or.inr ⟨ret, rfl⟩
    | _ => cases taken

/-- The books are exact after every step of every permitted run, and every permitted step ends. -/
theorem bookkeeping_stays_exact {past : List (Stage blockSize × Flashdisk n δ)}
    (run : Trace (Attached c (Consistent c)) (Permitted c) (step c) past (stage, fd)) :
    Exact fd ∧ ∀ h request, Permitted c (stage, fd) (h, request) → Accepted stage request →
      ∃ next, step c (stage, fd) (h, request) = some next := by
  obtain ⟨lists, underway⟩ : ∃ lists, Underway c lists stage fd := by
    refine Trace.invariant (fun state => ∃ lists, Underway c lists state.1 state.2) ?_ ?_ run
    · rintro ⟨stage, fd⟩ ⟨rfl, h, start, ⟨table, distinct, attaching⟩, result⟩
      exact recoverBlockMappings_spec distinct attaching result
    · rintro ⟨stage, fd⟩ ⟨h, request⟩ ⟨next, disk⟩ ⟨lists, underway⟩ permitted taken
      obtain ⟨stageAfter, diskAfter, after, result, underwayAfter⟩ :=
        step_underway underway permitted (accepted_of_step taken)
      rw [result] at taken
      obtain ⟨rfl, rfl⟩ : stageAfter = next ∧ diskAfter = disk := by simpa using taken
      exact ⟨after, underwayAfter⟩
  refine ⟨underway.exact, fun h request permitted accepted => ?_⟩
  obtain ⟨next, disk, after, result, -⟩ := step_underway underway permitted accepted
  exact ⟨(next, disk), result⟩

section Examples

/-- Two segments with two data pages each. -/
def twoSegments : Config 2 16 where
  segmentSize _ := 64
  backgroundErase := false
  backgroundCompact := false
  blankCheckBeforeWrite := false
  unavailBlocks := 2
  compactSegs := 0
  availCompactSegs := 0
  fits := by decide
  spare := by decide

/-- A blank flash whose driver answers every write of flags as given. -/
def blankFlash (flags : Nat) : Handlers 2 16 Unit where
  readDescriptors _ _ := (0, fun _ => PageDesc.blank, ())
  readFlags _ _ _ := (0, 0xffff, ())
  readPage _ _ _ := (0, fun _ => 0xff, ())
  write _ _ program :=
    match program with
    | .flags _ _ => (flags, ())
    | _ => (0, ())
  blank _ _ _ := (0, ())
  verify _ _ _ _ := (eio, ())
  erase _ _ := (0, ())

/-- A disk before it is attached. -/
def detached : Flashdisk 2 Unit where
  blocks _ := none
  erasedBlocks := 0
  segments _ := ⟨[], 0, 0, 0, false⟩
  queues :=
    { queue := fun _ => empty
      next := fun _ => none }
  device := ()

/-- The disk after it has been attached. -/
def blankDisk : Flashdisk 2 Unit :=
  ((recoverBlockMappings twoSegments (blankFlash 0) detached).getD (1, detached)).2

theorem blankDisk_attached (kind : Handlers 2 16 Unit → Prop) (good : kind (blankFlash 0)) :
    Attached twoSegments kind (.done 0, blankDisk) := by
  refine ⟨rfl, blankFlash 0, detached, good, ?_⟩
  rfl

theorem blankFlash_consistent : Consistent twoSegments (blankFlash 0) := by
  refine ⟨fun _ _ => PageDesc.blank, ⟨?_, ?_⟩, ⟨fun _ _ => rfl, ?_⟩⟩
  · intro s page _ active
    exact absurd active (by decide)
  · intro s page other place _ _ active
    exact absurd active (by decide)
  · intro fd sc program
    cases program <;> rfl

theorem blankFlash_careful : Careful twoSegments (blankFlash 0) where
  write fd sc program := by cases program <;> rfl
  blank _ _ _ _ := rfl
  flags _ _ _ _ := rfl
  read _ _ _ failed := absurd rfl failed
  erase _ _ failed := absurd rfl failed

/-- The result of a write that is done. -/
def Stage.result : Stage blockSize → Option Nat
  | .done ret => some ret
  | _ => none

/-- There is no starvation, and a block whose data are to be stored had no page. -/
def quiet (c : Config n blockSize) (state : Stage blockSize × Flashdisk n δ) : Bool :=
  !isErasedBlocksStarvation c state.2 &&
    match state.1 with
    | .claiming block _ => (state.2.blocks block).isNone
    | _ => true

theorem permitted_of_quiet (careful : Careful c h) (st : Stage blockSize × Flashdisk n δ)
    (request : Request blockSize) (still : quiet c st = true) :
    Permitted c st (h, request) := by
  obtain ⟨stage, fd⟩ := st
  obtain ⟨fed, unmapped⟩ := Bool.and_eq_true_iff.mp still
  have spacious : Spacious c fd := by
    intro starving
    rw [starving] at fed
    cases fed
  cases request with
  | read block => exact trivial
  | write block buffer => exact careful
  | compact => exact ⟨careful, spacious⟩
  | eraseUsed => exact trivial
  | proceed =>
    refine ⟨careful, ?_⟩
    cases stage with
    | foreground | sizing => exact fun _ => spacious
    | claiming block buffer =>
      intro mapped
      exact absurd (Option.isNone_iff_eq_none.mp unmapped) mapped
    | full block buffer => exact fun _ => spacious
    | stored ret => exact spacious
    | done ret => exact trivial

/-- Quiet requests with the same handlers are permitted. -/
theorem allowed_of_quiet (careful : Careful c h) (requests : List (Request blockSize))
    (st : Stage blockSize × Flashdisk n δ) (still : Allowed (fun st _ => quiet c st = true)
      (fun st request => step c st (h, request)) st requests) :
    Allowed (Permitted c) (step c) st (requests.map fun request => (h, request)) := by
  induction requests generalizing st with
  | nil => exact trivial
  | cons request rest ih =>
    obtain ⟨now, later⟩ := still
    refine ⟨permitted_of_quiet careful st request now, ?_⟩
    cases next : step c st (h, request) with
    | none => exact trivial
    | some after =>
      dsimp only at later
      rw [next] at later
      exact ih after later

/-- A block is written. -/
theorem bookkeeping_stays_exact_one_write :
    ∃ (past : List (Stage 16 × Flashdisk 2 Unit)) (last : Stage 16 × Flashdisk 2 Unit),
      Trace (Attached twoSegments (Consistent twoSegments)) (Permitted twoSegments)
        (step twoSegments) past last ∧ last.1.result = some 0 ∧ last.2.erasedBlocks = 3 ∧
        Exact last.2 := by
  have allowed : Allowed (Permitted twoSegments) (step twoSegments) (.done 0, blankDisk)
      ([.write 0 fun _ => 7, .proceed, .proceed, .proceed].map fun request =>
        (blankFlash 0, request)) :=
    allowed_of_quiet blankFlash_careful _ _ (by decide +kernel)
  obtain ⟨past, last, run, seen⟩ := Trace.observe (Permitted twoSegments) (step twoSegments)
    (.done 0, blankDisk) (blankDisk_attached _ blankFlash_consistent) _
    (fun state => (state.1.result, state.2.erasedBlocks)) (some 0, 3) allowed (by decide +kernel)
  rw [Prod.mk.injEq] at seen
  exact ⟨past, last, run, seen.1, seen.2, (bookkeeping_stays_exact run).1⟩

/-- A block is written, and written again with a driver that cannot write flags. -/
theorem failed_flag_write_breaks_books :
    ∃ (past : List (Stage 16 × Flashdisk 2 Unit)) (last : Stage 16 × Flashdisk 2 Unit),
      Trace (Attached twoSegments fun _ => True) (fun _ _ => True) (step twoSegments) past last ∧
        last.1.result = some 0 ∧ ¬Exact last.2 := by
  obtain ⟨past, last, run, seen⟩ := Trace.observe (fun _ _ => True) (step twoSegments)
    (.done 0, blankDisk) (blankDisk_attached (fun _ => True) trivial)
    [(blankFlash 0, .write 0 fun _ => 7), (blankFlash 0, .proceed), (blankFlash 0, .proceed),
      (blankFlash 0, .proceed), (blankFlash eio, .write 0 fun _ => 8), (blankFlash 0, .proceed),
      (blankFlash 0, .proceed), (blankFlash 0, .proceed), (blankFlash 0, .proceed)]
    (fun state => (state.1.result, (state.2.segments 0).pagesActive,
      (state.2.segments 0).countActive)) (some 0, 2, 1) (by decide +kernel) (by decide +kernel)
  rw [Prod.mk.injEq, Prod.mk.injEq] at seen
  refine ⟨past, last, run, seen.1, fun exact => ?_⟩
  have active := exact.active 0
  rw [seen.2.1, seen.2.2] at active
  cases active

end Examples

end Rtems.Block.FlashDisk
