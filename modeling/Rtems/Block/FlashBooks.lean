import Mathlib.Algebra.Order.BigOperators.Group.Finset
import Rtems.Block.FlashDisk

/-!
# The books of the flash disk

The counters of a segment are compared with its page descriptors, the queues with lists of
segments and the number of erased blocks with the erased pages of all the segments.
-/

namespace Rtems.Block.FlashDisk

open LinkedQueues
open Finset (mem_filter mem_insert_of_mem mem_insert_self mem_univ sum_congr sum_insert univ)
open Function (update update_of_ne update_self)
open Option (bind_assoc bind_eq_bind bind_some map_some)

variable {pd : PageDesc}

section Pages

theorem PageDesc.erased_iff : pd.erased = true ↔ pd = PageDesc.blank := by
  cases pd
  simp [PageDesc.erased, PageDesc.blank, and_assoc]

theorem PageDesc.blank_erased : PageDesc.blank.erased = true := by decide

theorem PageDesc.not_active_of_erased (erased : pd.erased = true) : pd.active = false := by
  rw [PageDesc.erased_iff.mp erased]
  decide

theorem PageDesc.not_used_of_erased (erased : pd.erased = true) : pd.used = false := by
  rw [PageDesc.erased_iff.mp erased]
  decide

theorem PageDesc.not_used_of_active (active : pd.active = true) : pd.used = false := by
  rw [PageDesc.active, Bool.and_eq_true] at active
  simpa [PageDesc.used] using active.2

theorem PageDesc.not_erased_of_active (active : pd.active = true) : pd.erased = false := by
  cases erased : pd.erased with
  | false => rfl
  | true =>
    rw [PageDesc.not_active_of_erased erased] at active
    cases active

theorem PageDesc.states (pd : PageDesc) :
    (if pd.erased then 1 else 0) + (if pd.active then 1 else 0) + (if pd.used then 1 else 0) +
      (if pd.bad then 1 else 0) = 1 := by
  cases erased : pd.erased with
  | true =>
    rw [PageDesc.bad, erased, PageDesc.not_active_of_erased erased,
      PageDesc.not_used_of_erased erased]
    rfl
  | false =>
    cases active : pd.active with
    | true =>
      rw [PageDesc.bad, erased, active, PageDesc.not_used_of_active active]
      rfl
    | false =>
      rw [PageDesc.bad, erased, active]
      cases pd.used <;> rfl

theorem PageDesc.used_setFlags (pd : PageDesc) : (pd.setFlags pageUsed).used = true := by
  have clear : pd.flags &&& ~~~2#16 &&& 2#16 = 0#16 := by
    rw [BitVec.and_assoc, show ~~~2#16 &&& 2#16 = 0#16 from by decide, BitVec.and_zero]
  simpa [PageDesc.used, PageDesc.flagsSet, PageDesc.setFlags, pageUsed] using clear

theorem PageDesc.not_active_of_used (used : pd.used = true) : pd.active = false := by
  cases active : pd.active with
  | false => rfl
  | true =>
    rw [PageDesc.not_used_of_active active] at used
    cases used

theorem PageDesc.not_erased_of_used (used : pd.used = true) : pd.erased = false := by
  cases erased : pd.erased with
  | false => rfl
  | true =>
    rw [PageDesc.not_used_of_erased erased] at used
    cases used

end Pages

theorem increment_of_lt {word : Nat} (small : word + 1 < 2 ^ 32) : increment word = word + 1 :=
  if_neg (by omega)

theorem decrement_of_pos {word : Nat} (positive : 0 < word) : decrement word = word - 1 :=
  if_neg (by omega)

namespace SegmentCtl

/-- The number of erased pages, by the descriptors. -/
def countErased (sc : SegmentCtl) : Nat := sc.pageDescriptors.countP PageDesc.erased

def countActive (sc : SegmentCtl) : Nat := sc.pageDescriptors.countP PageDesc.active

def countUsed (sc : SegmentCtl) : Nat := sc.pageDescriptors.countP PageDesc.used

def countBad (sc : SegmentCtl) : Nat := sc.pageDescriptors.countP PageDesc.bad

/-- The counters are those of the descriptors. -/
structure Counted (sc : SegmentCtl) : Prop where
  active : sc.pagesActive = sc.countActive
  used : sc.pagesUsed = sc.countUsed
  bad : sc.pagesBad = sc.countBad

theorem countP_states (pds : List PageDesc) :
    pds.countP PageDesc.erased + pds.countP PageDesc.active + pds.countP PageDesc.used +
      pds.countP PageDesc.bad = pds.length := by
  induction pds with
  | nil => rfl
  | cons pd pds ih =>
    have one := pd.states
    simp only [List.countP_cons, List.length_cons]
    omega

variable {sc : SegmentCtl}

theorem Counted.pagesAvailable (counted : sc.Counted) (small : sc.pages < 2 ^ 32) :
    sc.pagesAvailable = sc.countErased := by
  have all := countP_states sc.pageDescriptors
  have length : sc.pages = sc.pageDescriptors.length := rfl
  rw [SegmentCtl.pagesAvailable, counted.active, counted.used, counted.bad,
    Nat.mod_eq_of_lt (by simp only [countActive, countUsed, countBad]; omega), minus,
    if_pos (by simp only [countActive, countUsed, countBad]; omega)]
  simp only [countErased, countActive, countUsed, countBad]
  omega

/-- One descriptor changes. -/
theorem countP_set {pds : List PageDesc} {page : Nat} {old new : PageDesc}
    (found : pds[page]? = some old) (test : PageDesc → Bool) :
    (pds.set page new).countP test + (if test old then 1 else 0) =
      pds.countP test + (if test new then 1 else 0) := by
  obtain ⟨inside, rfl⟩ := List.getElem?_eq_some_iff.mp found
  have mem : test pds[page] = true → 0 < pds.countP test := fun accepted =>
    List.countP_pos_iff.mpr ⟨_, List.getElem_mem inside, accepted⟩
  rw [List.countP_set inside]
  split <;> rename_i accepted
  · have positive := mem accepted
    omega
  · omega

theorem nextAvailablePage_spec (erased : 0 < sc.countErased) : sc.nextAvailablePage < sc.pages ∧
      sc.pageDescriptors[sc.nextAvailablePage]? = some PageDesc.blank := by
  obtain ⟨pd, mem, blank⟩ := List.countP_pos_iff.mp erased
  have inside : sc.nextAvailablePage < sc.pageDescriptors.length :=
    List.findIdx_lt_length_of_exists ⟨pd, mem, blank⟩
  refine ⟨inside, ?_⟩
  have found : (sc.pageDescriptors[sc.nextAvailablePage]).erased = true :=
    List.findIdx_getElem (w := inside)
  rw [List.getElem?_eq_getElem inside, PageDesc.erased_iff.mp found]

theorem nextAvailablePage_none (nothing : sc.countErased = 0) : sc.pages ≤ sc.nextAvailablePage := by
  rw [countErased, List.countP_eq_zero] at nothing
  rw [nextAvailablePage, List.findIdx_eq_length_of_false (by simpa using nothing)]
  rfl

/-- The control of a segment whose first erased page becomes active. -/
def filled (sc : SegmentCtl) (pd : PageDesc) : SegmentCtl :=
  { sc with
    pageDescriptors := sc.pageDescriptors.set sc.nextAvailablePage pd
    pagesActive := increment sc.pagesActive }

theorem filled_pages (pd : PageDesc) : (sc.filled pd).pages = sc.pages := by
  simp [filled, pages]

theorem filled_counted (counted : sc.Counted) (small : sc.pages < 2 ^ 32)
    (active : pd.active = true) (room : 0 < sc.countErased) :
    (sc.filled pd).Counted ∧ (sc.filled pd).countErased + 1 = sc.countErased := by
  obtain ⟨inside, blank⟩ := nextAvailablePage_spec room
  have notErased := PageDesc.not_erased_of_active active
  have notUsed := PageDesc.not_used_of_active active
  have notBad : pd.bad = false := by simp [PageDesc.bad, active]
  have all := countP_states sc.pageDescriptors
  have change : ∀ test : PageDesc → Bool,
      (sc.pageDescriptors.set sc.nextAvailablePage pd).countP test +
        (if test PageDesc.blank then 1 else 0) =
      sc.pageDescriptors.countP test + (if test pd then 1 else 0) := countP_set blank
  have moreActive := change PageDesc.active
  have sameUsed := change PageDesc.used
  have sameBad := change PageDesc.bad
  have lessErased := change PageDesc.erased
  have more := counted.active
  have few : sc.pagesActive + 1 < 2 ^ 32 := by
    simp only [countErased, countActive, pages] at *
    omega
  simp only [active, notErased, notUsed, notBad, PageDesc.blank_erased, show PageDesc.blank.bad =
    false by decide] at moreActive sameUsed sameBad lessErased
  refine ⟨⟨?_, ?_, ?_⟩, lessErased⟩
  · change increment sc.pagesActive = _
    rw [increment_of_lt few, more]
    exact moreActive.symm
  · exact counted.used.trans sameUsed.symm
  · exact counted.bad.trans sameBad.symm

theorem countP_blank (test : PageDesc → Bool) (refused : test PageDesc.blank = false) (count : Nat) :
    (List.replicate count PageDesc.blank).countP test = 0 := by
  simp [refused]

theorem reset_counted : sc.reset.Counted where
  active := (countP_blank PageDesc.active (by decide) sc.pages).symm
  used := (countP_blank PageDesc.used (by decide) sc.pages).symm
  bad := (countP_blank PageDesc.bad (by decide) sc.pages).symm

theorem reset_countErased : sc.reset.countErased = sc.pages := by
  simp [reset, countErased, List.countP_replicate, PageDesc.blank_erased]

theorem reset_pages : sc.reset.pages = sc.pages := by
  simp [reset, pages]

end SegmentCtl

variable {n blockSize : Nat} {δ : Type} {c : Config n blockSize} {h : Handlers n blockSize δ}
  {fd : Flashdisk n δ} {lists : QueueName → List (Fin n)} {sc : Fin n}

theorem Config.pages_le (c : Config n blockSize) (sc : Fin n) : c.pages sc ≤ c.blockCount :=
  Finset.single_le_sum (fun _ _ => Nat.zero_le _) (mem_univ sc)

theorem Config.pages_lt (c : Config n blockSize) (sc : Fin n) : c.pages sc < 2 ^ 32 :=
  (c.pages_le sc).trans_lt c.fits

variable {name : QueueName} {queues : Queues QueueName (Fin n)}

section Queues

section

variable (holds : Holds fd.queues lists) (name : QueueName)
include holds

theorem length_le : (lists name).length ≤ n := by
  simpa using (holds.nodup name).length_le_card

theorem present_eq : fd.present name sc = some (decide (sc ∈ lists name)) := by
  rw [Flashdisk.present, find_reaches _ (length_le holds name) (holds.linked name), map_some]
  congr 1
  rw [Bool.eq_iff_iff, List.find?_isSome]
  simp

theorem countQueue_some : ∃ count, fd.countQueue name = some count :=
  ⟨_, gather_reaches _ (length_le holds name) (holds.linked name)⟩

end

/-- The larger of two stays. -/
theorem foldl_larger (key : Fin n → Nat) (nodes : List (Fin n)) (first : Fin n) :
    let biggest := nodes.foldl (fun biggest sc => if key sc > key biggest then sc else biggest) first
    (biggest = first ∨ biggest ∈ nodes) ∧ key first ≤ key biggest ∧
      ∀ node ∈ nodes, key node ≤ key biggest := by
  induction nodes generalizing first with
  | nil => simp
  | cons node nodes ih =>
    obtain ⟨from', least, all⟩ := ih (if key node > key first then node else first)
    simp only [List.foldl_cons, List.mem_cons, forall_eq_or_imp]
    by_cases larger : key node > key first
    · rw [if_pos larger] at from' least all ⊢
      exact ⟨Or.inr from', by omega, least, all⟩
    · rw [if_neg larger] at from' least all ⊢
      exact ⟨from'.imp id Or.inr, least, by omega, all⟩

theorem mostAvailable_nil (fd : Flashdisk n δ) (holds : Holds fd.queues lists)
    (nothing : lists name = []) : fd.mostAvailable name = some none := by
  have head : (fd.queues.queue name).head = none := by
    rw [reaches_head (holds.linked name), nothing]
    rfl
  rw [Flashdisk.mostAvailable]
  simp only [head]

/-- A segment of the queue with the most available pages is found. -/
theorem mostAvailable_some (fd : Flashdisk n δ) (holds : Holds fd.queues lists)
    (something : lists name ≠ []) :
    ∃ dsc ∈ lists name, fd.mostAvailable name = some (some dsc) ∧
      ∀ s ∈ lists name, (fd.segments s).pagesAvailable ≤ (fd.segments dsc).pagesAvailable := by
  obtain ⟨first, rest, split⟩ := List.exists_cons_of_ne_nil something
  have walk := holds.linked name
  have enough := length_le holds name
  have head : (fd.queues.queue name).head = some first := by
    rw [reaches_head walk, split]
    rfl
  rw [head] at walk
  obtain ⟨source, -, all⟩ :=
    foldl_larger (fun sc => (fd.segments sc).pagesAvailable) (lists name) first
  refine ⟨_, ?_, ?_, all⟩
  · rcases source with same | mem
    · rw [same, split]
      exact List.mem_cons_self
    · exact mem
  · rw [Flashdisk.mostAvailable]
    simp only [head]
    rw [gather_reaches _ enough walk]
    rfl

/-- The lists without the segment, which is neither to be erased nor failed. -/
def unqueued (lists : QueueName → List (Fin n)) (sc : Fin n) : QueueName → List (Fin n) :=
  Function.update (Function.update lists .available ((lists .available).erase sc)) .used
    ((lists .used).erase sc)

theorem mem_unqueued (holds : Holds queues lists) (notErase : sc ∉ lists .erase)
    (notFailed : sc ∉ lists .failed) {segment : Fin n} :
    segment ∈ unqueued lists sc name ↔ segment ≠ sc ∧ segment ∈ lists name := by
  cases name with
  | available => exact (holds.nodup .available).mem_erase_iff
  | used => exact (holds.nodup .used).mem_erase_iff
  | erase =>
    refine ⟨fun mem => ⟨?_, mem⟩, And.right⟩
    rintro rfl
    exact notErase mem
  | failed =>
    refine ⟨fun mem => ⟨?_, mem⟩, And.right⟩
    rintro rfl
    exact notFailed mem

/-- Two removals take the segment off. -/
theorem remove_twice (holds : Holds fd.queues lists) (sc : Fin n) :
    ∃ queues, (fd.remove .available sc).bind (fun fd => fd.remove .used sc) =
        some { fd with queues := queues } ∧ Holds queues (unqueued lists sc) := by
  obtain ⟨first, removed, holdsFirst⟩ :
      ∃ first, LinkedQueues.remove fd.queues n .available sc = some first ∧
        Holds first (update lists .available ((lists .available).erase sc)) :=
    holds.remove (length_le holds .available)
  have still : update lists QueueName.available ((lists .available).erase sc) .used =
      lists .used := rfl
  obtain ⟨second, removedAgain, holdsSecond⟩ :
      ∃ second, LinkedQueues.remove first n .used sc = some second ∧
        Holds second (unqueued lists sc) :=
    holdsFirst.remove (still ▸ length_le holds .used)
  refine ⟨second, ?_, holdsSecond⟩
  simp only [Flashdisk.remove, removed, removedAgain, map_some, bind_some]

/-- The lists after `rtems_fdisk_queue_segment`, unless the segment is erased at once. -/
def requeued (fd : Flashdisk n δ) (lists : QueueName → List (Fin n)) (sc : Fin n) :
    QueueName → List (Fin n) :=
  let rest := unqueued lists sc
  if (fd.segments sc).pagesAvailable = 0 then
    if (fd.segments sc).pagesActive ≠ 0 then
      Function.update rest .used ((rest .used).orderedInsert
        (fun one another => (fd.segments another).pagesUsed < (fd.segments one).pagesUsed) sc)
    else Function.update rest .erase (rest .erase ++ [sc])
  else
    Function.update rest .available ((rest .available).orderedInsert
      (fun one another =>
        (fd.segments one).pagesAvailable < (fd.segments another).pagesAvailable) sc)

/-- The segment has to be erased at once. -/
def EraseNow (c : Config n blockSize) (control : SegmentCtl) : Prop :=
  control.pagesAvailable = 0 ∧ control.pagesActive = 0 ∧ c.backgroundErase = false

/-- Being on a queue. -/
def Placed (lists : QueueName → List (Fin n)) (s : Fin n) : Prop := ∃ name, s ∈ lists name

theorem mem_requeued (holds : Holds queues lists)
    (notErase : sc ∉ lists .erase) (notFailed : sc ∉ lists .failed) {segment : Fin n} (other : segment ≠ sc) :
    segment ∈ requeued fd lists sc name ↔ segment ∈ lists name := by
  have rest : ∀ name, segment ∈ unqueued lists sc name ↔ segment ∈ lists name := fun name => by
    simp [mem_unqueued holds notErase notFailed, other]
  rw [← rest, requeued]
  split
  · split
    · cases name <;> simp [other]
    · cases name <;> simp [other]
  · cases name <;> simp [other]

/-- The segment is on a queue afterwards. -/
theorem requeued_self (fd : Flashdisk n δ) (lists : QueueName → List (Fin n)) (sc : Fin n) :
    ∃ name, sc ∈ requeued fd lists sc name := by
  rw [requeued]
  split
  · split
    · exact ⟨.used, by simp⟩
    · exact ⟨.erase, by simp⟩
  · exact ⟨.available, by simp⟩

theorem requeued_failed : requeued fd lists sc .failed = lists .failed := by
  rw [requeued]
  split
  · split <;> rfl
  · rfl

theorem requeued_erase (active : (fd.segments sc).pagesAvailable ≠ 0 ∨
    (fd.segments sc).pagesActive ≠ 0) : requeued fd lists sc .erase = lists .erase := by
  rw [requeued]
  split
  · rw [if_pos (active.resolve_left (not_not.mpr ‹_›))]
    rfl
  · rfl

theorem requeued_used_idle (idle : (fd.segments sc).pagesActive = 0) :
    requeued fd lists sc .used = (lists .used).erase sc := by
  rw [requeued, if_neg (not_not.mpr idle)]
  split <;> rfl

section Sound

variable (fd) (sound : (fd.segments sc).failed = false)
include sound

/-- A segment that is not erased at once is put on its queue, and nothing else changes. -/
theorem queueSegment_keep (holds : Holds fd.queues lists) (notErase : sc ∉ lists .erase)
    (notFailed : sc ∉ lists .failed) (keep : ¬EraseNow c (fd.segments sc)) :
    ∃ queues, queueSegment c h fd sc = some { fd with queues := queues } ∧
      Holds queues (requeued fd lists sc) := by
  obtain ⟨queues, removed, holdsRest⟩ := remove_twice holds sc
  have free : ∀ name, sc ∉ unqueued lists sc name := fun name mem =>
    ((mem_unqueued holds notErase notFailed).mp mem).1 rfl
  have enough : ∀ name, (unqueued lists sc name).length ≤ n := fun name => by
    simpa using (holdsRest.nodup name).length_le_card
  rw [queueSegment, if_neg (by simp [sound])]
  simp only [bind_eq_bind, ← bind_assoc, removed, bind_some]
  rw [requeued]
  by_cases full : (fd.segments sc).pagesAvailable = 0
  · rw [if_pos full, if_pos full]
    by_cases current : (fd.segments sc).pagesActive ≠ 0
    · rw [if_pos current, if_pos current]
      obtain ⟨after, inserted, holdsAfter⟩ := holdsRest.insertSorted (fun one another =>
        (fd.segments another).pagesUsed < (fd.segments one).pagesUsed) free (enough .used)
      rw [inserted]
      exact ⟨after, rfl, holdsAfter⟩
    · have background : c.backgroundErase = true := by
        cases erase : c.backgroundErase with
        | true => rfl
        | false => exact absurd ⟨full, not_not.mp current, erase⟩ keep
      rw [if_neg current, if_neg current, if_pos background]
      exact ⟨_, rfl, holdsRest.pushTail free⟩
  · rw [if_neg full, if_neg full]
    obtain ⟨after, inserted, holdsAfter⟩ := holdsRest.insertSorted (fun one another =>
      (fd.segments one).pagesAvailable < (fd.segments another).pagesAvailable) free
        (enough .available)
    rw [inserted]
    exact ⟨after, rfl, holdsAfter⟩

/-- A segment that is erased at once is taken off the queues before. -/
theorem queueSegment_erase (holds : Holds fd.queues lists) (now : EraseNow c (fd.segments sc)) :
    ∃ queues, queueSegment c h fd sc =
        (eraseSegment h { fd with queues := queues } sc).map Prod.snd ∧
      Holds queues (unqueued lists sc) := by
  obtain ⟨queues, removed, holdsRest⟩ := remove_twice holds sc
  refine ⟨queues, ?_, holdsRest⟩
  rw [queueSegment, if_neg (by simp [sound])]
  simp only [bind_eq_bind, ← bind_assoc, removed, bind_some]
  rw [if_pos now.1, if_neg (by simp [now.2.1]), if_neg (by simp [now.2.2])]
  cases eraseSegment h { fd with queues := queues } sc <;> rfl

end Sound

theorem queueSegment_failed (holds : Holds fd.queues lists) (there : sc ∈ lists .failed)
    (failed : (fd.segments sc).failed = true) : queueSegment c h fd sc = some fd := by
  rw [queueSegment, if_pos failed, Flashdisk.pushFailed, present_eq holds]
  simp [there]

/-- The disk after a successful erasure. -/
def Flashdisk.wiped (h : Handlers n blockSize δ) (fd : Flashdisk n δ) (sc : Fin n) :
    Flashdisk n δ :=
  { fd with
    device := (h.erase fd sc).2
    erasedBlocks := (fd.erasedBlocks + (fd.segments sc).pages) % 2 ^ 32
    segments := Function.update fd.segments sc (fd.segments sc).reset
    queues := LinkedQueues.pushTail fd.queues .available sc }

/-- The disk after an erasure that failed. -/
def Flashdisk.condemned (h : Handlers n blockSize δ) (fd : Flashdisk n δ) (sc : Fin n) :
    Flashdisk n δ :=
  { fd with
    device := (h.erase fd sc).2
    segments := Function.update fd.segments sc { fd.segments sc with failed := true }
    queues := LinkedQueues.pushTail fd.queues .failed sc }

theorem eraseSegment_success (ok : (h.erase fd sc).1 = 0) :
    eraseSegment h fd sc = some (0, fd.wiped h sc) := by
  rw [eraseSegment]
  simp only [ok]
  rfl

theorem eraseSegment_failure (holds : Holds fd.queues lists) (notFailed : sc ∉ lists .failed)
    (bad : (h.erase fd sc).1 ≠ 0) :
    eraseSegment h fd sc = some ((h.erase fd sc).1, fd.condemned h sc) := by
  have absent : fd.present .failed sc = some false := by
    rw [present_eq holds, decide_eq_false notFailed]
  rw [Flashdisk.condemned]
  generalize answer : h.erase fd sc = result at bad ⊢
  obtain ⟨ret, device⟩ := result
  have same : ∀ control, Flashdisk.present (Flashdisk.setSegment { fd with device := device } sc
      control) .failed sc = fd.present .failed sc := fun _ => rfl
  rw [eraseSegment, answer]
  dsimp only at bad ⊢
  rw [if_pos bad, Flashdisk.pushFailed, same, absent]
  rfl

end Queues

section Totals

/-- The erased pages of the segments that did not fail, some segments left out. -/
def Flashdisk.erasedPages (fd : Flashdisk n δ) (ignored : Finset (Fin n)) : Nat :=
  ∑ s with s ∉ ignored ∧ (fd.segments s).failed = false, (fd.segments s).countErased

variable {ignored : Finset (Fin n)}

theorem erasedPages_congr {other : Flashdisk n δ}
    (same : ∀ s ∉ ignored, other.segments s = fd.segments s) :
    other.erasedPages ignored = fd.erasedPages ignored := by
  apply sum_congr
  · ext s
    simp only [mem_filter, mem_univ, true_and, and_congr_right_iff]
    intro seen
    rw [same s seen]
  · intro s mem
    rw [same s (mem_filter.mp mem).2.1]

theorem erasedPages_insert (seen : sc ∉ ignored) (sound : (fd.segments sc).failed = false) :
    fd.erasedPages ignored = (fd.segments sc).countErased + fd.erasedPages (insert sc ignored) := by
  have split : univ.filter (fun s => s ∉ ignored ∧ (fd.segments s).failed = false) =
      insert sc (univ.filter fun s =>
        s ∉ insert sc ignored ∧ (fd.segments s).failed = false) := by
    ext s
    by_cases here : s = sc
    · simp [here, seen, sound]
    · simp [here]
  rw [Flashdisk.erasedPages, split, sum_insert (by simp)]
  rfl

theorem erasedPages_insert_failed (failed : (fd.segments sc).failed = true) :
    fd.erasedPages ignored = fd.erasedPages (insert sc ignored) := by
  apply sum_congr
  · ext s
    by_cases here : s = sc
    · simp [here, failed]
    · simp [here]
  · intro s _
    rfl

/-- The books are in order: the queues hold the lists, the counters of the segments that are not
ignored are those of their descriptors, the erased blocks are their erased pages and some more, and
every block that is not stale is mapped to an active page of its own. -/
structure Books (c : Config n blockSize) (stale : BitVec 32 → Prop) (fd : Flashdisk n δ) (lists : QueueName → List (Fin n))
    (ignored : Finset (Fin n)) (extra : Nat) : Prop where
  holds : Holds fd.queues lists
  apart : ∀ s ∈ ignored, s ∉ lists .erase ∧ s ∉ lists .failed
  pages : ∀ s ∉ ignored, (fd.segments s).pages = c.pages s
  counted : ∀ s ∉ ignored, (fd.segments s).Counted
  failing : ∀ s ∉ ignored, (fd.segments s).failed = true ↔ s ∈ lists .failed
  spent : ∀ s ∈ lists .erase, (fd.segments s).countActive = 0 ∧ (fd.segments s).countErased = 0
  busy : ∀ s ∈ lists .used, s ∉ ignored → 0 < (fd.segments s).countActive
  total : fd.erasedBlocks = fd.erasedPages ignored + extra
  room : extra ≤ ∑ s ∈ ignored, c.pages s
  mapped : ∀ block s page, fd.blocks block = some (s, page) → stale block ∨
    ∃ pd, (fd.segments s).pageDescriptors[page]? = some pd ∧ pd.active = true ∧ pd.block = block

variable {stale : BitVec 32 → Prop} {ignored : Finset (Fin n)} {extra : Nat}

theorem Books.pagesAvailable (books : Books c stale fd lists ignored extra) (seen : sc ∉ ignored) :
    (fd.segments sc).pagesAvailable = (fd.segments sc).countErased :=
  (books.counted sc seen).pagesAvailable (by rw [books.pages sc seen]; exact c.pages_lt sc)

theorem SegmentCtl.countErased_le (sc : SegmentCtl) : sc.countErased ≤ sc.pages :=
  List.countP_le_length

/-- There are not more erased pages than blocks. -/
theorem erasedPages_le (pages : ∀ s ∉ ignored, (fd.segments s).pages = c.pages s)
    (room : extra ≤ ∑ s ∈ ignored, c.pages s) : fd.erasedPages ignored + extra ≤ c.blockCount := by
  have seen : fd.erasedPages ignored ≤ ∑ s with s ∉ ignored, c.pages s := by
    calc fd.erasedPages ignored
        ≤ ∑ s with s ∉ ignored ∧ (fd.segments s).failed = false, c.pages s := by
          apply Finset.sum_le_sum
          intro s mem
          rw [← pages s (mem_filter.mp mem).2.1]
          exact (fd.segments s).countErased_le
      _ ≤ ∑ s with s ∉ ignored, c.pages s := by
          apply Finset.sum_le_sum_of_subset
          intro s mem
          simp only [mem_filter] at mem ⊢
          exact ⟨mem.1, mem.2.1⟩
  have all : ∑ s with s ∉ ignored, c.pages s + ∑ s ∈ ignored, c.pages s = c.blockCount := by
    rw [Geometry.blockCount, ← Finset.sum_filter_add_sum_filter_not univ (· ∉ ignored)]
    congr 1
    apply sum_congr _ fun _ _ => rfl
    ext s
    simp
  omega

/-- A segment that is going to change is left out of the books. -/
theorem Books.hide (books : Books c stale fd lists ignored extra) (seen : sc ∉ ignored)
    (notErase : sc ∉ lists .erase) (notFailed : sc ∉ lists .failed) :
    Books c stale fd lists (insert sc ignored) (extra + (fd.segments sc).countErased) := by
  have sound : (fd.segments sc).failed = false := by
    rw [Bool.eq_false_iff, ne_eq, books.failing sc seen]
    exact notFailed
  constructor
  case holds => exact books.holds
  case apart =>
    intro s hidden
    rcases Finset.mem_insert.mp hidden with rfl | hidden
    · exact ⟨notErase, notFailed⟩
    · exact books.apart s hidden
  case pages => exact fun s visible => books.pages s fun hidden => visible (mem_insert_of_mem hidden)
  case counted => exact fun s visible => books.counted s fun hidden => visible (mem_insert_of_mem hidden)
  case failing => exact fun s visible => books.failing s fun hidden => visible (mem_insert_of_mem hidden)
  case spent => exact books.spent
  case busy =>
    exact fun s mem visible => books.busy s mem fun hidden =>
      visible (mem_insert_of_mem hidden)
  case total =>
    rw [books.total, erasedPages_insert seen sound]
    omega
  case room =>
    rw [sum_insert seen, ← books.pages sc seen]
    have room := books.room
    have few := (fd.segments sc).countErased_le
    omega
  case mapped => exact books.mapped

/-- A segment that was left out is entered into the books again. -/
theorem Books.enter (books : Books c stale fd lists (insert sc ignored) extra) (seen : sc ∉ ignored)
    (pages : (fd.segments sc).pages = c.pages sc) (counted : (fd.segments sc).Counted)
    (sound : (fd.segments sc).failed = false)
    (busy : sc ∈ lists .used → 0 < (fd.segments sc).countActive) {rest : Nat}
    (split : extra = rest + (fd.segments sc).countErased) (room : rest ≤ ∑ s ∈ ignored, c.pages s) :
    Books c stale fd lists ignored rest := by
  have notFailed := (books.apart sc (mem_insert_self sc ignored)).2
  have visible : ∀ s, s ≠ sc → s ∉ ignored → s ∉ insert sc ignored := fun s ne outside => by
    simp [ne, outside]
  constructor
  case holds => exact books.holds
  case apart => exact fun s hidden => books.apart s (mem_insert_of_mem hidden)
  case pages =>
    intro s outside
    by_cases here : s = sc
    · exact here ▸ pages
    · exact books.pages s (visible s here outside)
  case counted =>
    intro s outside
    by_cases here : s = sc
    · exact here ▸ counted
    · exact books.counted s (visible s here outside)
  case failing =>
    intro s outside
    by_cases here : s = sc
    · subst here
      simp [sound, notFailed]
    · exact books.failing s (visible s here outside)
  case spent => exact books.spent
  case busy =>
    intro s mem outside
    by_cases here : s = sc
    · subst here
      exact busy mem
    · exact books.busy s mem (visible s here outside)
  case total =>
    rw [books.total, erasedPages_insert seen sound, split]
    omega
  case room => exact room
  case mapped => exact books.mapped

section

variable (books : Books c stale fd lists ignored extra)
include books

/-- Other lists are held, with the same failed segments and none to be erased that has an active
or an erased page. -/
theorem Books.relist {after : QueueName → List (Fin n)} (holds : Holds queues after)
    (failed : after .failed = lists .failed)
    (erase : ∀ s ∈ after .erase, s ∈ lists .erase ∨ s ∉ ignored ∧
      (fd.segments s).countActive = 0 ∧ (fd.segments s).countErased = 0)
    (used : ∀ s ∈ after .used, s ∈ lists .used ∨ 0 < (fd.segments s).countActive) :
    Books c stale { fd with queues := queues } after ignored extra where
  holds := holds
  apart s hidden :=
    ⟨fun mem => (erase s mem).elim (books.apart s hidden).1 fun fresh => fresh.1 hidden,
      failed ▸ (books.apart s hidden).2⟩
  pages := books.pages
  counted := books.counted
  failing s outside := failed ▸ books.failing s outside
  spent s mem := (erase s mem).elim (books.spent s) And.right
  busy s mem outside := (used s mem).elim (fun there => books.busy s there outside) id
  total := books.total
  room := books.room
  mapped := books.mapped

/-- Segments in hand, the mapping and the number of erased blocks change. -/
theorem Books.modify {later : BitVec 32 → Prop} {after : Flashdisk n δ} {more : Nat}
    (queues : after.queues = fd.queues) (same : ∀ s ∉ ignored, after.segments s = fd.segments s)
    (total : after.erasedBlocks + extra = fd.erasedBlocks + more)
    (room : more ≤ ∑ s ∈ ignored, c.pages s) (mapped : ∀ block s page, after.blocks block = some (s,
      page) → later block ∨ ∃ pd, (after.segments s).pageDescriptors[page]? = some pd ∧ pd.active =
      true ∧ pd.block = block) : Books c later after lists ignored more := by
  constructor
  case holds => exact queues ▸ books.holds
  case apart => exact books.apart
  case pages => exact fun s outside => (same s outside) ▸ books.pages s outside
  case counted => exact fun s outside => (same s outside) ▸ books.counted s outside
  case failing => exact fun s outside => (same s outside) ▸ books.failing s outside
  case spent =>
    intro s mem
    rw [same s fun hidden => (books.apart s hidden).1 mem]
    exact books.spent s mem
  case busy => exact fun s mem outside => (same s outside) ▸ books.busy s mem outside
  case total =>
    have before := books.total
    rw [erasedPages_congr same]
    omega
  case room => exact room
  case mapped => exact mapped

theorem Books.setDevice (device : δ) :
    Books c stale { fd with device := device } lists ignored extra := by
  cases books
  constructor <;> assumption

/-- The queues change, and the other books with them. -/
theorem Books.requeue (seen : sc ∉ ignored)
    (notErase : sc ∉ lists .erase) (notFailed : sc ∉ lists .failed)
    (holds : Holds queues (requeued fd lists sc)) :
    Books c stale { fd with queues := queues } (requeued fd lists sc) ignored extra := by
  have holdsNodup := books.holds.nodup .used
  apply books.relist holds
  case failed => exact requeued_failed
  case erase =>
    intro s mem
    by_cases here : s = sc
    · subst here
      by_cases other : (fd.segments s).pagesAvailable ≠ 0 ∨ (fd.segments s).pagesActive ≠ 0
      · rw [requeued_erase other] at mem
        exact absurd mem notErase
      · have active := (books.counted s seen).active
        have available := books.pagesAvailable seen
        exact Or.inr ⟨seen, by omega, by omega⟩
    · exact Or.inl ((mem_requeued books.holds notErase notFailed here).mp mem)
  case used =>
    intro s mem
    by_cases here : s = sc
    · subst here
      refine Or.inr (Nat.pos_of_ne_zero fun idle => ?_)
      rw [← (books.counted s seen).active] at idle
      rw [requeued_used_idle idle] at mem
      exact ((holdsNodup.mem_erase_iff).mp mem).1 rfl
    · exact Or.inl ((mem_requeued books.holds notErase notFailed here).mp mem)

/-- The available or the used queue changes. -/
theorem Books.push {after : List (Fin n)} (holds : Holds queues (update lists name after))
    (good : name ≠ .failed) (wanted : name ≠ .erase)
    (used : name = .used → ∀ s ∈ after, s ∈ lists .used ∨ 0 < (fd.segments s).countActive) :
    Books c stale { fd with queues := queues } (update lists name after) ignored extra := by
  apply books.relist holds
  case failed => exact update_of_ne good.symm _ _
  case erase =>
    intro s mem
    rw [update_of_ne wanted.symm] at mem
    exact Or.inl mem
  case used =>
    intro s mem
    by_cases here : name = .used
    · subst here
      exact used rfl s mem
    · rw [update_of_ne (Ne.symm here)] at mem
      exact Or.inl mem

/-- Only stale blocks are mapped to a segment without active pages. -/
theorem Books.unmapped (idle : (fd.segments sc).countActive = 0) (block : BitVec 32) (page : Nat)
    (found : fd.blocks block = some (sc, page)) : stale block := by
  rcases books.mapped block sc page found with old | ⟨pd, there, active, -⟩
  · exact old
  · exact absurd active (List.countP_eq_zero.mp idle pd (List.mem_of_getElem? there))

end

section

variable (books : Books c stale fd lists (insert sc ignored) extra) (seen : sc ∉ ignored)
  (free : ∀ name, sc ∉ lists name) (pages : (fd.segments sc).pages = c.pages sc)
include books seen free pages

/-- A segment in hand has been erased. -/
theorem Books.wiped (room : extra ≤ ∑ s ∈ ignored, c.pages s)
    (unmapped : ∀ block page, fd.blocks block = some (sc, page) → stale block) :
    Books c stale (fd.wiped h sc) (update lists .available (lists .available ++ [sc])) ignored extra := by
  have other : ∀ s, s ≠ sc → (fd.wiped h sc).segments s = fd.segments s :=
    fun s ne => update_of_ne ne _ _
  have self : (fd.wiped h sc).segments sc = (fd.segments sc).reset := update_self sc _ fd.segments
  have all : extra + c.pages sc ≤ ∑ s ∈ insert sc ignored, c.pages s := by
    rw [sum_insert seen]
    omega
  have more : Books c stale { fd.wiped h sc with queues := fd.queues } lists (insert sc ignored)
      (extra + c.pages sc) := by
    apply books.modify
    case queues => rfl
    case same =>
      intro s outside
      exact other s fun here => outside (here ▸ mem_insert_self sc ignored)
    case total =>
      have bound := (erasedPages_le books.pages all).trans_lt c.fits
      have total := books.total
      change (fd.erasedBlocks + (fd.segments sc).pages) % 2 ^ 32 + extra = _
      omega
    case room => exact all
    case mapped =>
      intro block s page found
      by_cases here : s = sc
      · exact Or.inl (unmapped block page (here ▸ found))
      · simp only [other s here]
        exact books.mapped block s page found
  have entered : Books c stale { fd.wiped h sc with queues := fd.queues } lists ignored extra := by
    apply more.enter seen _ _ _ _ _ room
    · simp only [self, SegmentCtl.reset_pages, pages]
    · simp only [self, SegmentCtl.reset_counted]
    · simp only [self]
      rfl
    · exact fun mem => absurd mem (free .used)
    · simp only [self, SegmentCtl.reset_countErased, pages]
  exact entered.push (books.holds.pushTail free) (by decide) (by decide)
    fun wrong => QueueName.noConfusion wrong

/-- A segment in hand could not be erased. -/
theorem Books.condemned (counted : (fd.segments sc).Counted)
    (room : extra ≤ ∑ s ∈ ignored, c.pages s) :
    Books c stale (fd.condemned h sc) (update lists .failed (lists .failed ++ [sc])) ignored extra := by
  have visible : ∀ s, s ≠ sc → s ∉ ignored → s ∉ insert sc ignored := fun s ne outside => by
    simp [ne, outside]
  have other : ∀ s, s ≠ sc → (fd.condemned h sc).segments s = fd.segments s :=
    fun s ne => update_of_ne ne _ _
  have self : (fd.condemned h sc).segments sc = { fd.segments sc with failed := true } :=
    update_self sc _ fd.segments
  constructor
  case holds => exact books.holds.pushTail free
  case apart =>
    intro s hidden
    obtain ⟨notErase, notFailed⟩ := books.apart s (mem_insert_of_mem hidden)
    refine ⟨notErase, fun mem => ?_⟩
    rcases List.mem_append.mp mem with mem | mem
    · exact notFailed mem
    · exact seen (List.mem_singleton.mp mem ▸ hidden)
  case pages =>
    intro s outside
    by_cases here : s = sc
    · rw [here, self]
      exact pages
    · rw [other s here]
      exact books.pages s (visible s here outside)
  case counted =>
    intro s outside
    by_cases here : s = sc
    · rw [here, self]
      exact { counted with }
    · rw [other s here]
      exact books.counted s (visible s here outside)
  case failing =>
    intro s outside
    by_cases here : s = sc
    · rw [here, self]
      simp
    · rw [other s here]
      simpa [here] using books.failing s (visible s here outside)
  case spent =>
    intro s mem
    have ne : s ≠ sc := by
      rintro rfl
      exact free .erase mem
    rw [other s ne]
    exact books.spent s mem
  case busy =>
    intro s mem outside
    have ne : s ≠ sc := by
      rintro rfl
      exact free .used mem
    rw [other s ne]
    exact books.busy s mem (visible s ne outside)
  case total =>
    rw [erasedPages_insert_failed (by rw [self]), erasedPages_congr fun s outside =>
      other s fun here => outside (here ▸ mem_insert_self sc ignored)]
    exact books.total
  case room => exact room
  case mapped =>
    intro block s page found
    by_cases here : s = sc
    · rw [here, self]
      exact books.mapped block sc page (here ▸ found)
    · rw [other s here]
      exact books.mapped block s page found

end

section

variable (books : Books c stale fd lists (insert sc ignored) (extra + (fd.segments sc).countErased))
  (seen : sc ∉ ignored) (pages : (fd.segments sc).pages = c.pages sc)
  (counted : (fd.segments sc).Counted) (sound : (fd.segments sc).failed = false)
  (room : extra ≤ ∑ s ∈ ignored, c.pages s)
include books seen pages counted sound room

/-- A segment in hand is off its queue; it is entered and put on the right one. -/
theorem Books.requeueHidden (holds : Holds queues (requeued fd lists sc)) :
    Books c stale { fd with queues := queues } (requeued fd lists sc) ignored extra := by
  obtain ⟨notErase, notFailed⟩ := books.apart sc (mem_insert_self sc ignored)
  have others : ∀ {s : Fin n} {name : QueueName}, s ≠ sc → (s ∈ requeued fd lists sc name ↔
      s ∈ unqueued lists sc name) := by
    intro s name ne
    rw [mem_requeued books.holds notErase notFailed ne, mem_unqueued books.holds notErase notFailed]
    simp [ne]
  obtain ⟨removed, -, holdsRest⟩ := remove_twice books.holds sc
  have free : ∀ name, sc ∉ unqueued lists sc name := fun name mem =>
    ((mem_unqueued books.holds notErase notFailed).mp mem).1 rfl
  have off : Books c stale { fd with queues := removed } (unqueued lists sc) (insert sc ignored)
      (extra + (fd.segments sc).countErased) := by
    apply books.relist holdsRest
    case failed => rfl
    case erase => exact fun s mem => Or.inl mem
    case used => exact fun s mem => Or.inl (List.mem_of_mem_erase mem)
  have entered : Books c stale { fd with queues := removed } (unqueued lists sc) ignored extra :=
    off.enter seen pages counted sound (fun mem => absurd mem (free .used)) rfl room
  have available := counted.pagesAvailable (by rw [pages]; exact c.pages_lt sc)
  apply entered.relist holds
  case failed => exact requeued_failed
  case erase =>
    intro s mem
    by_cases here : s = sc
    · subst here
      by_cases other : (fd.segments s).pagesAvailable ≠ 0 ∨ (fd.segments s).pagesActive ≠ 0
      · rw [requeued_erase other] at mem
        exact absurd mem notErase
      · have active := counted.active
        refine Or.inr ⟨seen, ?_, ?_⟩
        · change (fd.segments s).countActive = 0
          omega
        · change (fd.segments s).countErased = 0
          omega
    · exact Or.inl ((others here).mp mem)
  case used =>
    intro s mem
    by_cases here : s = sc
    · subst here
      refine Or.inr (Nat.pos_of_ne_zero fun idle => ?_)
      have active : (fd.segments s).pagesActive = 0 := counted.active.trans idle
      rw [requeued_used_idle active] at mem
      exact free .used mem
    · exact Or.inl ((others here).mp mem)

/-- `rtems_fdisk_queue_segment` keeps the books, whether or not the segment is erased. -/
theorem Books.queueSegment :
    ∃ after moved, queueSegment c h fd sc = some after ∧ Books c stale after moved ignored extra ∧
      Placed moved sc ∧ (∀ s, s ≠ sc → ∀ name, s ∈ moved name ↔ s ∈ lists name) ∧
      after.blocks = fd.blocks := by
  obtain ⟨notErase, notFailed⟩ := books.apart sc (mem_insert_self sc ignored)
  by_cases now : EraseNow c (fd.segments sc)
  · obtain ⟨queues, queued, holds⟩ := queueSegment_erase (h := h) fd sound books.holds now
    have free : ∀ name, sc ∉ unqueued lists sc name := fun name mem =>
      ((mem_unqueued books.holds notErase notFailed).mp mem).1 rfl
    have others : ∀ s, s ≠ sc → ∀ name, s ∈ unqueued lists sc name ↔ s ∈ lists name :=
      fun s ne name => by simp [mem_unqueued books.holds notErase notFailed, ne]
    have available := counted.pagesAvailable (by rw [pages]; exact c.pages_lt sc)
    have idle : (fd.segments sc).countActive = 0 := counted.active ▸ now.2.1
    have full : (fd.segments sc).countErased = 0 := available ▸ now.1
    have off : Books c stale { fd with queues := queues } (unqueued lists sc) (insert sc ignored)
        extra := by
      rw [full] at books
      apply books.relist holds
      case failed => rfl
      case erase => exact fun s mem => Or.inl mem
      case used => exact fun s mem => Or.inl (List.mem_of_mem_erase mem)
    by_cases ok : (h.erase { fd with queues := queues } sc).1 = 0
    · refine ⟨_, _, by rw [queued, eraseSegment_success ok]; rfl,
        off.wiped seen free pages room (off.unmapped idle), ⟨.available, by simp⟩, ?_, rfl⟩
      intro s ne name
      rw [← others s ne name]
      cases name <;> simp [ne]
    · refine ⟨_, _, by rw [queued, eraseSegment_failure holds (free .failed) ok]; rfl,
        off.condemned seen free pages counted room, ⟨.failed, by simp⟩, ?_, rfl⟩
      intro s ne name
      rw [← others s ne name]
      cases name <;> simp [ne]
  · obtain ⟨queues, queued, holds⟩ :=
      queueSegment_keep (h := h) fd sound books.holds notErase notFailed now
    exact ⟨_, _, queued, books.requeueHidden seen pages counted sound room holds,
      requeued_self fd lists sc,
      fun s ne name => mem_requeued books.holds notErase notFailed ne, rfl⟩

end

/-- The first segment of a queue is taken. -/
theorem Books.popHead (books : Books c stale fd lists ignored extra)
    {rest : List (Fin n)} (first : lists name = sc :: rest) (good : name ≠ .failed) :
    ∃ queues, fd.popHead name = (some sc, { fd with queues := queues }) ∧
      Books c stale { fd with queues := queues } (update lists name rest) ignored extra ∧
      ∀ other, sc ∉ update lists name rest other := by
  obtain ⟨queues, popped, holds⟩ := books.holds.popHead_cons first
  have part : ∀ s other, s ∈ update lists name rest other → s ∈ lists other := by
    intro s other mem
    by_cases here : other = name
    · subst here
      rw [update_self] at mem
      rw [first]
      exact List.mem_cons_of_mem sc mem
    · rwa [update_of_ne here] at mem
  refine ⟨queues, by rw [Flashdisk.popHead, popped], ?_, ?_⟩
  · apply books.relist holds
    case failed => exact update_of_ne good.symm _ _
    case erase => exact fun s mem => Or.inl (part s .erase mem)
    case used => exact fun s mem => Or.inl (part s .used mem)
  · intro other mem
    have here : sc ∈ lists name := by
      rw [first]
      exact List.mem_cons_self
    have nodup := books.holds.nodup name
    rw [first, List.nodup_cons] at nodup
    rw [books.holds.disjoint other name sc (part sc other mem) here, update_self] at mem
    exact nodup.1 mem

/-- Nothing is taken from an empty queue. -/
theorem Books.popHead_nil (books : Books c stale fd lists ignored extra)
    (nothing : lists name = []) : fd.popHead name = (none, fd) := by
  rw [Flashdisk.popHead, books.holds.popHead_nil nothing]

end Totals

end Rtems.Block.FlashDisk
