import Rtems.Block.FlashBooks

/-!
# Recycling a segment of the flash disk

The source is in hand while its active pages are moved one after the other. Up to a page of the
source everything is moved; the books leave the source out, apart from its erased pages from
there on.
-/

namespace Rtems.Block.FlashDisk

open LinkedQueues
open Function (update update_of_ne update_self)

variable {n blockSize : Nat} {δ : Type}

/-- The handlers of a request do not fail where the books would not stand it: no write, no check
before a write, no read of a page for which pages of the segment have been moved or counted
before, and no erasure of a segment with descriptors of active pages. -/
structure Careful (c : Config n blockSize) (h : Handlers n blockSize δ) : Prop where
  write : ∀ fd sc program, (h.write fd sc program).1 = 0
  blank : c.blankCheckBeforeWrite = true → ∀ fd sc area, (h.blank fd sc area).1 = 0
  flags : c.blankCheckBeforeWrite = true → ∀ fd sc page, (h.readFlags fd sc page).1 = 0
  read : ∀ fd sc page, (h.readPage fd sc page).1 ≠ 0 →
    ∀ pd ∈ (fd.segments sc).pageDescriptors.take page, pd.active = false ∧ pd.erased = false
  erase : ∀ fd sc, (h.erase fd sc).1 ≠ 0 → (fd.segments sc).countActive = 0

variable {c : Config n blockSize} {h : Handlers n blockSize δ} {fd : Flashdisk n δ}
  {lists : QueueName → List (Fin n)} {ssc dsc : Fin n} {pds : List PageDesc} {k pages : Nat}
  {spd : PageDesc} {stale : BitVec 32 → Prop}

section Writes

variable (careful : Careful c h) (sc : Fin n)
include careful

section

variable (fd : Flashdisk n δ)

theorem segWrite_careful (program : Program blockSize) :
    segWrite h fd sc program = (0, { fd with device := (h.write fd sc program).2 }) := by
  have ok := careful.write fd sc program
  rw [segWrite]
  dsimp only at ok ⊢
  rw [if_pos ok, ok]

theorem blankCheck_careful (area : Area) :
    ∃ dev, blankCheck c h fd sc area = (0, { fd with device := dev }) := by
  rw [blankCheck]
  by_cases checks : c.blankCheckBeforeWrite = true
  · have ok := careful.blank checks fd sc area
    rw [if_pos checks]
    generalize h.blank fd sc area = answer at ok ⊢
    obtain ⟨ret, dev⟩ := answer
    exact ⟨dev, Prod.ext ok rfl⟩
  · rw [if_neg checks]
    exact ⟨fd.device, rfl⟩

theorem segWritePageDesc_careful (page : Nat) (pd : PageDesc) :
    ∃ dev, segWritePageDesc c h fd sc page pd = (0, { fd with device := dev }) := by
  obtain ⟨dev, checked⟩ := blankCheck_careful careful sc fd (.descriptor page)
  rw [segWritePageDesc, checked]
  dsimp only
  rw [if_pos rfl, segWrite_careful careful]
  exact ⟨_, rfl⟩

theorem segWritePage_careful (page : Nat) (buffer : Page blockSize) :
    ∃ dev, segWritePage c h fd sc page buffer =
      (0, { fd with device := dev, erasedBlocks := decrement fd.erasedBlocks }) := by
  obtain ⟨dev, checked⟩ := blankCheck_careful careful sc fd (.data page)
  rw [segWritePage, checked]
  dsimp only
  rw [if_pos rfl, segWrite_careful careful]
  exact ⟨_, rfl⟩

theorem segCopyPage_careful (page : Nat) (destination : Fin n)
    (destinationPage : Nat) (read : (h.readPage fd sc page).1 = 0) :
    ∃ dev, segCopyPage c h fd sc page destination destinationPage =
      (0, { fd with device := dev, erasedBlocks := decrement fd.erasedBlocks }) := by
  rw [segCopyPage]
  generalize h.readPage fd sc page = answer at read ⊢
  obtain ⟨ret, buffer, dev⟩ := answer
  dsimp only at read ⊢
  rw [if_pos read]
  exact segWritePage_careful careful destination _ destinationPage buffer

end

end Writes

/-- The disk after the active page `spage` of the source was copied, before the destination is
queued again. -/
def Flashdisk.moved (c : Config n blockSize) (h : Handlers n blockSize δ) (fd : Flashdisk n δ)
    (ssc dsc : Fin n) (spage : Nat) (spd : PageDesc) : Flashdisk n δ :=
  let dpage := (fd.segments dsc).nextAvailablePage
  let written := (fd.segments dsc).pageDescriptors.set dpage spd
  let copied := (segCopyPage c h fd ssc spage dsc dpage).2
  let described := copied.setSegment dsc { fd.segments dsc with pageDescriptors := written }
  { blocks := Function.update fd.blocks spd.block (some (dsc, dpage))
    erasedBlocks := decrement fd.erasedBlocks
    segments :=
      Function.update
        (Function.update fd.segments dsc
          { fd.segments dsc with
            pageDescriptors := written
            pagesActive := increment (fd.segments dsc).pagesActive })
        ssc
        { fd.segments ssc with
          pagesActive := decrement (fd.segments ssc).pagesActive
          pagesUsed := increment (fd.segments ssc).pagesUsed }
    queues := fd.queues
    device := (segWritePageDesc c h described dsc dpage spd).2.device }

theorem movePage_careful (careful : Careful c h) (apart : dsc ≠ ssc)
    (room : (fd.segments dsc).nextAvailablePage < (fd.segments dsc).pages)
    (read : (h.readPage fd ssc k).1 = 0) :
    movePage c h fd ssc dsc k spd pages = pageMoved c h (fd.moved c h ssc dsc k spd) ssc dsc pages := by
  obtain ⟨first, copied⟩ := segCopyPage_careful careful ssc fd k dsc
    (fd.segments dsc).nextAvailablePage read
  rw [movePage, if_neg (by omega), copied]
  dsimp only
  obtain ⟨second, described⟩ := segWritePageDesc_careful careful dsc
    ((({ fd with device := first, erasedBlocks := decrement fd.erasedBlocks } : Flashdisk n δ)).setSegment
      dsc { fd.segments dsc with
        pageDescriptors := (fd.segments dsc).pageDescriptors.set
          (fd.segments dsc).nextAvailablePage spd }) (fd.segments dsc).nextAvailablePage spd
  rw [described]
  refine congrArg (fun disk => pageMoved c h disk ssc dsc pages) ?_
  rw [Flashdisk.moved]
  rw [copied]
  rw [described]
  simp only [Flashdisk.setSegment, update_self, Function.update_idem, update_of_ne apart.symm]

section Counts

theorem countP_drop (found : pds[k]? = some spd) (test : PageDesc → Bool) :
    (pds.drop k).countP test = (pds.drop (k + 1)).countP test + if test spd then 1 else 0 := by
  obtain ⟨inside, rfl⟩ := List.getElem?_eq_some_iff.mp found
  rw [List.drop_eq_getElem_cons inside, List.countP_cons]

theorem countP_drop_inactive (found : pds[k]? = some spd) (inactive : spd.active = false) :
    (pds.drop k).countP PageDesc.active = (pds.drop (k + 1)).countP PageDesc.active := by
  rw [countP_drop found, inactive]
  rfl

theorem countP_take (found : pds[k]? = some spd) (test : PageDesc → Bool) :
    (pds.take (k + 1)).countP test = (pds.take k).countP test + if test spd then 1 else 0 := by
  obtain ⟨inside, rfl⟩ := List.getElem?_eq_some_iff.mp found
  rw [List.take_succ_eq_append_getElem inside, List.countP_append, List.countP_singleton]

theorem countP_take_le (pds : List PageDesc) (k : Nat) (test : PageDesc → Bool) : (pds.take k).countP test ≤ pds.countP test :=
  (List.take_sublist k pds).countP_le

theorem countP_split (pds : List PageDesc) (k : Nat) (test : PageDesc → Bool) :
    (pds.take k).countP test + (pds.drop k).countP test = pds.countP test := by
  rw [← List.countP_append, List.take_append_drop]

end Counts

/-- The active pages of the source before page `k` are moved, and its erased pages before it are
counted no more. -/
structure Moving (c : Config n blockSize) (stale : BitVec 32 → Prop) (fd : Flashdisk n δ) (lists : QueueName → List (Fin n))
    (ssc : Fin n) (pds : List PageDesc) (k : Nat) : Prop where
  books : Books c stale fd lists {ssc} ((pds.drop k).countP PageDesc.erased)
  free : ∀ name, ssc ∉ lists name
  descriptors : (fd.segments ssc).pageDescriptors = pds
  length : pds.length = c.pages ssc
  sound : (fd.segments ssc).failed = false
  active : (fd.segments ssc).pagesActive = (pds.drop k).countP PageDesc.active
  used : (fd.segments ssc).pagesUsed =
    pds.countP PageDesc.used + (pds.take k).countP PageDesc.active
  bad : (fd.segments ssc).pagesBad = pds.countP PageDesc.bad
  behind : ∀ block page, fd.blocks block = some (ssc, page) → stale block ∨ k ≤ page

variable {s : Fin n}

section Moved

variable (c h fd) (ssc dsc : Fin n) (k : Nat) (spd : PageDesc)

theorem moved_source : (fd.moved c h ssc dsc k spd).segments ssc = { fd.segments ssc with
      pagesActive := decrement (fd.segments ssc).pagesActive
      pagesUsed := increment (fd.segments ssc).pagesUsed } :=
  update_self ssc _ _

theorem moved_destination (apart : dsc ≠ ssc) : (fd.moved c h ssc dsc k spd).segments dsc =
    { fd.segments dsc with
      pageDescriptors := (fd.segments dsc).pageDescriptors.set
        (fd.segments dsc).nextAvailablePage spd
      pagesActive := increment (fd.segments dsc).pagesActive } := by
  rw [Flashdisk.moved]
  dsimp only
  rw [update_of_ne apart, update_self]

theorem moved_other (notSource : s ≠ ssc) (notDestination : s ≠ dsc) :
    (fd.moved c h ssc dsc k spd).segments s = fd.segments s := by
  rw [Flashdisk.moved]
  dsimp only
  rw [update_of_ne notSource, update_of_ne notDestination]

end Moved

/-- Every block is mapped to an active page of its own after a move. -/
theorem Moving.mapped (moving : Moving c stale fd lists ssc pds k) (active : spd.active = true)
    (apart : dsc ≠ ssc) (room : 0 < (fd.segments dsc).countErased) (block : BitVec 32) (s : Fin n)
    (page : Nat) (found : (fd.moved c h ssc dsc k spd).blocks block = some (s, page)) :
    stale block ∨ ∃ pd, ((fd.moved c h ssc dsc k spd).segments s).pageDescriptors[page]? = some pd ∧
      pd.active = true ∧ pd.block = block := by
  obtain ⟨inside, blank⟩ := SegmentCtl.nextAvailablePage_spec room
  rw [Flashdisk.moved] at found
  dsimp only at found
  by_cases same : block = spd.block
  · rw [same, update_self] at found
    cases found
    refine Or.inr ⟨spd, ?_, active, same.symm⟩
    rw [moved_destination c h fd ssc dsc k spd apart]
    exact List.getElem?_set_self inside
  · rw [update_of_ne same] at found
    refine (moving.books.mapped block s page found).imp id ?_
    rintro ⟨pd, there, current, own⟩
    refine ⟨pd, ?_, current, own⟩
    by_cases isSource : s = ssc
    · rw [isSource, moved_source]
      exact isSource ▸ there
    by_cases isDestination : s = dsc
    · subst isDestination
      rw [moved_destination c h fd ssc s k spd apart]
      have elsewhere : (fd.segments s).nextAvailablePage ≠ page := by
        rintro rfl
        rw [blank] at there
        cases there
        exact absurd current (by decide)
      exact (List.getElem?_set_ne elsewhere).trans there
    · rw [moved_other c h fd ssc dsc k spd isSource isDestination]
      exact there

/-- The counters of the destination after a move. -/
theorem moved_counted (apart : dsc ≠ ssc) (counted : (fd.segments dsc).Counted)
    (small : (fd.segments dsc).pages < 2 ^ 32) (active : spd.active = true)
    (room : 0 < (fd.segments dsc).countErased) :
    ((fd.moved c h ssc dsc k spd).segments dsc).Counted ∧
      ((fd.moved c h ssc dsc k spd).segments dsc).countErased + 1 = (fd.segments dsc).countErased := by
  rw [moved_destination c h fd ssc dsc k spd apart]
  exact SegmentCtl.filled_counted counted small active room

variable {queues : Queues QueueName (Fin n)}

section

variable (moving : Moving c stale fd lists ssc pds k)
include moving

/-- An active page is copied and the counters follow. -/
theorem Moving.move (found : pds[k]? = some spd)
    (active : spd.active = true) (apart : dsc ≠ ssc) (notErase : dsc ∉ lists .erase)
    (notFailed : dsc ∉ lists .failed) (room : 0 < (fd.segments dsc).countErased) :
    Moving c stale (fd.moved c h ssc dsc k spd) lists ssc pds (k + 1) := by
  have busy : 0 < ((fd.moved c h ssc dsc k spd).segments dsc).countActive := by
    rw [moved_destination c h fd ssc dsc k spd apart, SegmentCtl.countActive]
    exact List.countP_pos_iff.mpr
      ⟨spd, List.mem_set (SegmentCtl.nextAvailablePage_spec room).1 spd, active⟩
  have seen : dsc ∉ ({ssc} : Finset (Fin n)) := by simpa using apart
  have notErased := PageDesc.not_erased_of_active active
  have pages := moving.books.pages dsc seen
  obtain ⟨counted, less⟩ := moved_counted (c := c) (h := h) (k := k) apart
    (moving.books.counted dsc seen) (by rw [pages]; exact c.pages_lt dsc) active room
  have activeDrop := countP_drop found PageDesc.active
  have activeTake := countP_take found PageDesc.active
  have erasedDrop := countP_drop found PageDesc.erased
  simp only [active, notErased, ↓reduceIte, Bool.false_eq_true] at activeDrop activeTake erasedDrop
  have hidden := moving.books.hide seen notErase notFailed
  have positive : 0 < fd.erasedBlocks := by
    have total := hidden.total
    omega
  have modified : Books c stale (fd.moved c h ssc dsc k spd) lists (insert dsc {ssc})
      ((pds.drop (k + 1)).countP PageDesc.erased +
        ((fd.moved c h ssc dsc k spd).segments dsc).countErased) := by
    apply hidden.modify
    case queues => rfl
    case same =>
      intro s outside
      simp only [Finset.mem_insert, Finset.mem_singleton, not_or] at outside
      exact moved_other c h fd ssc dsc k spd outside.2 outside.1
    case total =>
      change decrement fd.erasedBlocks + _ = _
      rw [decrement_of_pos positive]
      omega
    case room =>
      have room := hidden.room
      omega
    case mapped => exact moving.mapped active apart room
  constructor
  case books =>
    apply modified.enter seen _ counted _ (fun _ => busy) rfl
    · have room := moving.books.room
      omega
    · rw [moved_destination c h fd ssc dsc k spd apart, ← pages]
      exact List.length_set
    · rw [moved_destination c h fd ssc dsc k spd apart]
      rw [Bool.eq_false_iff, ne_eq, moving.books.failing dsc seen]
      exact notFailed
  case free => exact moving.free
  case descriptors =>
    rw [moved_source]
    exact moving.descriptors
  case length => exact moving.length
  case sound =>
    rw [moved_source]
    exact moving.sound
  case active =>
    rw [moved_source]
    change decrement (fd.segments ssc).pagesActive = _
    rw [moving.active, decrement_of_pos (by omega)]
    omega
  case used =>
    have states := SegmentCtl.countP_states pds
    have part := countP_take_le pds (k + 1) PageDesc.active
    have small := c.pages_lt ssc
    have length := moving.length
    rw [moved_source]
    change increment (fd.segments ssc).pagesUsed = _
    rw [moving.used, increment_of_lt (by omega)]
    omega
  case bad =>
    rw [moved_source]
    exact moving.bad
  case behind =>
    intro block page mapped
    rw [Flashdisk.moved] at mapped
    dsimp only at mapped
    by_cases same : block = spd.block
    · rw [same, update_self] at mapped
      cases mapped
      exact absurd rfl apart
    · rw [update_of_ne same] at mapped
      rcases moving.behind block page mapped with old | least
      · exact Or.inl old
      rcases moving.books.mapped block ssc page mapped with old | ⟨pd, there, -, own⟩
      · exact Or.inl old
      rw [moving.descriptors] at there
      rcases Nat.lt_or_eq_of_le least with later | rfl
      · exact Or.inr later
      · rw [found] at there
        cases there
        exact absurd own.symm same

/-- A page that is not active keeps no block. -/
theorem Moving.behind_next (found : pds[k]? = some spd) (notActive : spd.active = false)
    (block : BitVec 32) (page : Nat) (mapped : fd.blocks block = some (ssc, page)) :
    stale block ∨ k + 1 ≤ page := by
  rcases moving.behind block page mapped with old | least
  · exact Or.inl old
  rcases moving.books.mapped block ssc page mapped with old | ⟨pd, there, current, -⟩
  · exact Or.inl old
  rw [moving.descriptors] at there
  rcases Nat.lt_or_eq_of_le least with later | rfl
  · exact Or.inr later
  · rw [found] at there
    cases there
    rw [notActive] at current
    cases current

/-- The source has a page that is neither active nor erased. -/
theorem Moving.skip (found : pds[k]? = some spd) (notActive : spd.active = false)
    (notErased : spd.erased = false) : Moving c stale fd lists ssc pds (k + 1) := by
  have activeDrop := countP_drop found PageDesc.active
  have activeTake := countP_take found PageDesc.active
  have erasedDrop := countP_drop found PageDesc.erased
  simp only [notActive, notErased, Bool.false_eq_true, ↓reduceIte, add_zero]
    at activeDrop activeTake erasedDrop
  exact { moving with
    books := erasedDrop ▸ moving.books, active := activeDrop ▸ moving.active
    used := activeTake ▸ moving.used, behind := moving.behind_next found notActive }

/-- The source has an erased page, which is not counted any more. -/
theorem Moving.pass (found : pds[k]? = some spd) (erased : spd.erased = true) :
    Moving c stale { fd with erasedBlocks := decrement fd.erasedBlocks } lists ssc pds (k + 1) := by
  have notActive := PageDesc.not_active_of_erased erased
  have activeDrop := countP_drop found PageDesc.active
  have activeTake := countP_take found PageDesc.active
  have erasedDrop := countP_drop found PageDesc.erased
  simp only [notActive, erased, Bool.false_eq_true, ↓reduceIte, add_zero]
    at activeDrop activeTake erasedDrop
  have positive : 0 < fd.erasedBlocks := by
    have total := moving.books.total
    omega
  refine { moving with
    books := ?books, active := activeDrop ▸ moving.active, used := activeTake ▸ moving.used
    behind := moving.behind_next found notActive }
  case books =>
    apply moving.books.modify
    case queues => rfl
    case same => exact fun s _ => rfl
    case total =>
      change decrement fd.erasedBlocks + _ = _
      rw [decrement_of_pos positive]
      omega
    case room =>
      have room := moving.books.room
      omega
    case mapped => exact moving.books.mapped

/-- The destination is put on its queue. -/
theorem Moving.requeue (apart : dsc ≠ ssc) (notErase : dsc ∉ lists .erase)
    (notFailed : dsc ∉ lists .failed) (holds : Holds queues (requeued fd lists dsc)) :
    Moving c stale { fd with queues := queues } (requeued fd lists dsc) ssc pds k where
  books := moving.books.requeue (by simpa using apart) notErase notFailed holds
  free name mem :=
    moving.free name ((mem_requeued moving.books.holds notErase notFailed apart.symm).mp mem)
  descriptors := moving.descriptors
  length := moving.length
  sound := moving.sound
  active := moving.active
  used := moving.used
  bad := moving.bad
  behind := moving.behind

end

/-- The erased pages of a destination in hand and of the available segments. -/
def poolPages (fd : Flashdisk n δ) (lists : QueueName → List (Fin n)) (dsc : Fin n) : Nat :=
  (((lists .available).erase dsc).map fun s => (fd.segments s).countErased).sum +
    (fd.segments dsc).countErased

/-- No erased page follows the last active page. -/
def Ends (pds : List PageDesc) (k : Nat) : Prop :=
  ∀ page pd, k ≤ page → pds[page]? = some pd → pd.active = true →
    (pds.drop (page + 1)).countP PageDesc.active = 0 →
    (pds.drop (page + 1)).countP PageDesc.erased = 0

/-- The active pages of the source from page `k` on find a place. -/
structure Room (fd : Flashdisk n δ) (lists : QueueName → List (Fin n)) (ssc dsc : Fin n)
    (pds : List PageDesc) (k : Nat) : Prop where
  apart : dsc ≠ ssc
  place : dsc ∈ lists .available ∨ ∀ name, dsc ∉ lists name
  ready : 0 < (pds.drop k).countP PageDesc.active → 0 < (fd.segments dsc).countErased
  fits : (pds.drop k).countP PageDesc.active ≤ poolPages fd lists dsc
  tight : (pds.drop k).countP PageDesc.active = poolPages fd lists dsc → Ends pds k

theorem Ends.later (ends : Ends pds k) : Ends pds (k + 1) :=
  fun page pd later => ends page pd (by omega)

theorem Room.seen (room : Room fd lists ssc dsc pds k) : dsc ∉ ({ssc} : Finset (Fin n)) := by
  simpa using room.apart

/-- A destination is neither to be erased nor failed. -/
theorem Room.good (room : Room fd lists ssc dsc pds k) (holds : Holds fd.queues lists) :
    dsc ∉ lists .erase ∧ dsc ∉ lists .failed := by
  rcases room.place with mem | free
  · constructor
    iterate 2
      · intro other
        cases holds.disjoint _ _ _ mem other
  · exact ⟨free .erase, free .failed⟩

section Pool

theorem poolPages_moved (free : ∀ name, ssc ∉ lists name)
    (less : ((fd.moved c h ssc dsc k spd).segments dsc).countErased + 1 =
      (fd.segments dsc).countErased) (nodup : (lists .available).Nodup) :
    poolPages (fd.moved c h ssc dsc k spd) lists dsc + 1 = poolPages fd lists dsc := by
  have same : ((lists .available).erase dsc).map
      (fun s => ((fd.moved c h ssc dsc k spd).segments s).countErased) =
      ((lists .available).erase dsc).map fun s => (fd.segments s).countErased := by
    apply List.map_congr_left
    intro s mem
    obtain ⟨differs, inside⟩ := nodup.mem_erase_iff.mp mem
    rw [moved_other c h fd ssc dsc k spd (fun equal => free .available (equal ▸ inside)) differs]
  rw [poolPages, same, poolPages]
  omega

theorem poolPages_stay (left : (fd.segments dsc).pagesAvailable ≠ 0) :
    poolPages fd (requeued fd lists dsc) dsc = poolPages fd lists dsc := by
  have queued : requeued fd lists dsc .available = ((lists .available).erase dsc).orderedInsert
      (fun one another => (fd.segments one).pagesAvailable < (fd.segments another).pagesAvailable)
      dsc := by
    rw [requeued, if_neg left]
    rfl
  have perm := ((((lists .available).erase dsc).perm_orderedInsert (fun one another =>
    (fd.segments one).pagesAvailable < (fd.segments another).pagesAvailable) dsc).erase dsc)
  rw [List.erase_cons_head] at perm
  rw [poolPages, queued, poolPages]
  congr 1
  exact (perm.map _).sum_eq

theorem requeued_available_full (full : (fd.segments dsc).pagesAvailable = 0) :
    requeued fd lists dsc .available = (lists .available).erase dsc := by
  rw [requeued, if_pos full]
  split <;> rfl

/-- The pool without a full destination. -/
theorem poolPages_switch (full : (fd.segments dsc).pagesAvailable = 0)
    (empty : (fd.segments dsc).countErased = 0) {next : Fin n}
    (mem : next ∈ requeued fd lists dsc .available) :
    poolPages fd (requeued fd lists dsc) next = poolPages fd lists dsc := by
  rw [poolPages, poolPages, empty, requeued_available_full full, Nat.add_zero, Nat.add_comm]
  rw [requeued_available_full full] at mem
  exact List.sum_map_erase (fun s => (fd.segments s).countErased) mem

end Pool

/-- What a round of the loop over the pages of the source comes to: the page is passed over, it is
moved and the destination kept or changed, it is moved into the last erased page and the source
erased, or it cannot be read. -/
inductive Round (c : Config n blockSize) (h : Handlers n blockSize δ) (ssc : Fin n)
    (pds : List PageDesc) (k : Nat) (fd : Flashdisk n δ) (lists : QueueName → List (Fin n))
    (dsc : Fin n) (pages : Nat) : Progress n δ → (QueueName → List (Fin n)) → Prop where
  | skip (spd : PageDesc) (found : pds[k]? = some spd) (notActive : spd.active = false)
      (notErased : spd.erased = false) :
      Round c h ssc pds k fd lists dsc pages (.proceed fd dsc pages) lists
  | pass (spd : PageDesc) (found : pds[k]? = some spd) (erased : spd.erased = true) :
      Round c h ssc pds k fd lists dsc pages
        (.proceed { fd with erasedBlocks := decrement fd.erasedBlocks } dsc pages) lists
  | stay (spd : PageDesc) (found : pds[k]? = some spd) (active : spd.active = true)
      (queues : Queues QueueName (Fin n))
      (holds : Holds queues (requeued (fd.moved c h ssc dsc k spd) lists dsc))
      (left : ((fd.moved c h ssc dsc k spd).segments dsc).pagesAvailable ≠ 0) :
      Round c h ssc pds k fd lists dsc pages
        (.proceed { fd.moved c h ssc dsc k spd with queues := queues } dsc (decrement pages))
        (requeued (fd.moved c h ssc dsc k spd) lists dsc)
  | switch (spd : PageDesc) (found : pds[k]? = some spd) (active : spd.active = true)
      (queues : Queues QueueName (Fin n))
      (holds : Holds queues (requeued (fd.moved c h ssc dsc k spd) lists dsc))
      (full : ((fd.moved c h ssc dsc k spd).segments dsc).pagesAvailable = 0) (next : Fin n)
      (member : next ∈ requeued (fd.moved c h ssc dsc k spd) lists dsc .available)
      (most : ∀ s ∈ requeued (fd.moved c h ssc dsc k spd) lists dsc .available,
        ((fd.moved c h ssc dsc k spd).segments s).pagesAvailable ≤
          ((fd.moved c h ssc dsc k spd).segments next).pagesAvailable) :
      Round c h ssc pds k fd lists dsc pages
        (.proceed { fd.moved c h ssc dsc k spd with queues := queues } next (decrement pages))
        (requeued (fd.moved c h ssc dsc k spd) lists dsc)
  | finish (spd : PageDesc) (found : pds[k]? = some spd) (active : spd.active = true)
      (queues : Queues QueueName (Fin n))
      (holds : Holds queues (requeued (fd.moved c h ssc dsc k spd) lists dsc))
      (full : ((fd.moved c h ssc dsc k spd).segments dsc).pagesAvailable = 0)
      (nothing : requeued (fd.moved c h ssc dsc k spd) lists dsc .available = []) :
      Round c h ssc pds k fd lists dsc pages
        (.leave 0 pages
          (({ fd.moved c h ssc dsc k spd with queues := queues } : Flashdisk n δ).wiped h ssc))
        (Function.update (requeued (fd.moved c h ssc dsc k spd) lists dsc) .available [ssc])
  | fail (spd : PageDesc) (found : pds[k]? = some spd) (active : spd.active = true)
      (unread : (h.readPage fd ssc k).1 ≠ 0) (queues : Queues QueueName (Fin n))
      (holds : Holds queues (requeued fd lists dsc)) :
      Round c h ssc pds k fd lists dsc pages
        (.leave (h.readPage fd ssc k).1 pages
          (({ fd with device := (h.readPage fd ssc k).2.2, queues := queues } :
            Flashdisk n δ).pushHead .used ssc))
        (Function.update (requeued fd lists dsc) .used (ssc :: requeued fd lists dsc .used))

/-- The next page of the source is active. -/
theorem countP_pos (found : pds[k]? = some spd) (active : spd.active = true) :
    0 < (pds.drop k).countP PageDesc.active := by
  rw [countP_drop found, active]
  exact Nat.succ_pos _

section

variable (room : Room fd lists ssc dsc pds k) (moving : Moving c stale fd lists ssc pds k)
  (found : pds[k]? = some spd) (active : spd.active = true)
include room moving found active

/-- After a move the rest of the pages still finds a place. -/
theorem Room.moved :
    (pds.drop (k + 1)).countP PageDesc.active ≤ poolPages (fd.moved c h ssc dsc k spd) lists dsc ∧
      ((pds.drop (k + 1)).countP PageDesc.active =
        poolPages (fd.moved c h ssc dsc k spd) lists dsc → Ends pds k) := by
  have ready := room.ready (countP_pos found active)
  have seen := room.seen
  have size : (fd.segments dsc).pages < 2 ^ 32 := moving.books.pages dsc seen ▸ c.pages_lt dsc
  obtain ⟨-, less⟩ := moved_counted (c := c) (h := h) (k := k) room.apart
    (moving.books.counted dsc seen) size active ready
  have pool := poolPages_moved moving.free less (moving.books.holds.nodup .available)
  have one := countP_drop found PageDesc.active
  rw [active, if_pos rfl] at one
  have fits := room.fits
  refine ⟨by omega, fun equal => room.tight (by omega)⟩

theorem queueSegment_moved : ∃ queues, queueSegment c h (fd.moved c h ssc dsc k spd) dsc =
        some { fd.moved c h ssc dsc k spd with queues := queues } ∧
      Holds queues (requeued (fd.moved c h ssc dsc k spd) lists dsc) := by
  have ready := room.ready (countP_pos found active)
  obtain ⟨notErase, notFailed⟩ := room.good moving.books.holds
  have seen := room.seen
  have after : Moving c stale (fd.moved c h ssc dsc k spd) lists ssc pds (k + 1) :=
    moving.move found active room.apart notErase notFailed ready
  have sound : ((fd.moved c h ssc dsc k spd).segments dsc).failed = false := by
    rw [Bool.eq_false_iff, ne_eq, after.books.failing dsc seen]
    exact notFailed
  refine queueSegment_keep _ sound after.books.holds notErase notFailed fun now => ?_
  obtain ⟨inside, -⟩ := SegmentCtl.nextAvailablePage_spec ready
  have idle := (after.books.counted dsc seen).active
  rw [now.2.1, eq_comm, SegmentCtl.countActive, List.countP_eq_zero] at idle
  refine idle spd ?_ active
  rw [moved_destination c h fd ssc dsc k spd room.apart]
  exact List.mem_set inside spd

end

variable {disk : Flashdisk n δ}

/-- The source is not empty after a move, so that its erasure does not fail. -/
theorem erase_source (careful : Careful c h)
    (descriptors : (disk.segments ssc).pageDescriptors = pds) (found : pds[k]? = some spd)
    (active : spd.active = true) : (h.erase disk ssc).1 = 0 := by
  by_contra bad
  have idle := careful.erase disk ssc bad
  rw [SegmentCtl.countActive, descriptors, List.countP_eq_zero] at idle
  exact idle spd (List.mem_of_getElem? found) active

/-- A page that could be copied. -/
theorem pageMoved_round (careful : Careful c h) (moving : Moving c stale fd lists ssc pds k)
    (room : Room fd lists ssc dsc pds k) (found : pds[k]? = some spd) (active : spd.active = true) :
    ∃ out after, pageMoved c h (fd.moved c h ssc dsc k spd) ssc dsc pages = some out ∧
      Round c h ssc pds k fd lists dsc pages out after := by
  obtain ⟨notErase, notFailed⟩ := room.good moving.books.holds
  obtain ⟨queues, queued, holds⟩ := queueSegment_moved (h := h) room moving found active
  have seen := room.seen
  have moved : Moving c stale (fd.moved c h ssc dsc k spd) lists ssc pds (k + 1) :=
    moving.move found active room.apart notErase notFailed (room.ready (countP_pos found active))
  have later := moved.requeue room.apart notErase notFailed holds
  rw [pageMoved, queued]
  simp only [Option.bind_eq_bind, Option.bind_some]
  by_cases full : ((fd.moved c h ssc dsc k spd).segments dsc).pagesAvailable = 0
  · rw [if_pos full]
    by_cases nothing : requeued (fd.moved c h ssc dsc k spd) lists dsc .available = []
    · have idle : (((fd.moved c h ssc dsc k spd)).segments ssc).pagesActive = 0 := by
        have none : ((fd.moved c h ssc dsc k spd).segments dsc).countErased = 0 :=
          moved.books.pagesAvailable seen ▸ full
        have fits := (room.moved (h := h) moving found active).1
        rw [requeued_available_full full] at nothing
        rw [poolPages, nothing, none] at fits
        rw [moved.active]
        simpa using fits
      have wiped := erase_source careful later.descriptors found active
      rw [mostAvailable_nil _ holds nothing]
      rw [if_pos idle, eraseSegment_success wiped]
      exact ⟨_, _, rfl, .finish spd found active queues holds full nothing⟩
    · obtain ⟨next, mem, most, all⟩ := mostAvailable_some
        { fd.moved c h ssc dsc k spd with queues := queues } holds nothing
      rw [most]
      exact ⟨_, _, rfl, .switch spd found active queues holds full next mem all⟩
  · rw [if_neg full]
    exact ⟨_, _, rfl, .stay spd found active queues holds full⟩

/-- A page that could not be read. -/
theorem abandonRecycling_round (moving : Moving c stale fd lists ssc pds k)
    (room : Room fd lists ssc dsc pds k) (found : pds[k]? = some spd)
    (active : spd.active = true) (unread : (h.readPage fd ssc k).1 ≠ 0) :
    ∃ out after, abandonRecycling c h { fd with device := (h.readPage fd ssc k).2.2 } ssc dsc pages
        (h.readPage fd ssc k).1 = some out ∧ Round c h ssc pds k fd lists dsc pages out after := by
  obtain ⟨notErase, notFailed⟩ := room.good moving.books.holds
  have seen := room.seen
  have ready := room.ready (countP_pos found active)
  have sound : (fd.segments dsc).failed = false := by
    rw [Bool.eq_false_iff, ne_eq, moving.books.failing dsc seen]
    exact notFailed
  have keep : ¬EraseNow c (fd.segments dsc) := by
    intro now
    rw [EraseNow, moving.books.pagesAvailable seen] at now
    omega
  obtain ⟨queues, queued, holds⟩ := queueSegment_keep (h := h)
    { fd with device := (h.readPage fd ssc k).2.2 } sound moving.books.holds notErase notFailed keep
  rw [abandonRecycling, queued]
  exact ⟨_, _, rfl, .fail spd found active unread queues holds⟩

/-- Every round of the loop has a result. -/
theorem recyclePage_round (careful : Careful c h) (moving : Moving c stale fd lists ssc pds k)
    (room : Room fd lists ssc dsc pds k) (inside : k < pds.length) :
    ∃ out after, recyclePage c h fd ssc dsc k pages = some out ∧
      Round c h ssc pds k fd lists dsc pages out after := by
  have found : pds[k]? = some pds[k] := List.getElem?_eq_getElem inside
  rw [recyclePage, moving.descriptors, found]
  dsimp only
  cases active : pds[k].active with
  | true =>
    have ready := room.ready (countP_pos found active)
    obtain ⟨less, -⟩ := SegmentCtl.nextAvailablePage_spec ready
    rw [if_pos rfl]
    by_cases read : (h.readPage fd ssc k).1 = 0
    · rw [movePage_careful careful room.apart less read]
      exact pageMoved_round careful moving room found active
    · have copied : segCopyPage c h fd ssc k dsc (fd.segments dsc).nextAvailablePage =
          ((h.readPage fd ssc k).1, { fd with device := (h.readPage fd ssc k).2.2 }) := by
        exact if_neg read
      rw [movePage, if_neg (by omega), copied]
      dsimp only
      rw [if_pos read]
      exact abandonRecycling_round moving room found active read
  | false =>
    cases erased : pds[k].erased with
    | true =>
      exact ⟨_, _, rfl, .pass pds[k] found erased⟩
    | false =>
      exact ⟨_, _, rfl, .skip pds[k] found active erased⟩

variable {after : QueueName → List (Fin n)}

/-- A destination with the most available pages is ready if there are pages at all. -/
theorem ready_of_most {books : Nat} (kept : Books c stale disk after {ssc} books)
    (free : ssc ∉ after .available) {next : Fin n} (mem : next ∈ after .available)
    (most : ∀ s ∈ after .available, (disk.segments s).pagesAvailable ≤ (disk.segments next).pagesAvailable)
    (some : 0 < poolPages disk after next) : 0 < (disk.segments next).countErased := by
  have available : ∀ s ∈ after .available,
      (disk.segments s).pagesAvailable = (disk.segments s).countErased := by
    intro s inside
    apply kept.pagesAvailable
    rw [Finset.mem_singleton]
    rintro rfl
    exact free inside
  by_contra none
  have zero : ∀ count ∈ ((after .available).erase next).map fun s => (disk.segments s).countErased,
      count = 0 := by
    intro count inside
    obtain ⟨s, there, rfl⟩ := List.mem_map.mp inside
    have member' := List.mem_of_mem_erase there
    have bound := most s member'
    rw [available s member', available next mem] at bound
    omega
  rw [poolPages, List.sum_eq_zero zero] at some
  omega

variable {destination : Fin n}

theorem Round.next {rest : Nat} (moving : Moving c stale fd lists ssc pds k)
    (room : Room fd lists ssc dsc pds k)
    (round : Round c h ssc pds k fd lists dsc pages (.proceed disk destination rest) after) :
    Moving c stale disk after ssc pds (k + 1) ∧ Room disk after ssc destination pds (k + 1) := by
  obtain ⟨notErase, notFailed⟩ := room.good moving.books.holds
  have seen := room.seen
  cases round with
  | skip spd found notActive notErased =>
    have same := countP_drop_inactive found notActive
    refine ⟨moving.skip found notActive notErased, room.apart, room.place, ?_, ?_, ?_⟩
    · exact same ▸ room.ready
    · exact same ▸ room.fits
    · exact fun equal => (room.tight (same ▸ equal)).later
  | pass spd found erased =>
    have same := countP_drop_inactive found (PageDesc.not_active_of_erased erased)
    refine ⟨moving.pass found erased, room.apart, room.place, ?_, ?_, ?_⟩
    · exact same ▸ room.ready
    · exact same ▸ room.fits
    · exact fun equal => (room.tight (same ▸ equal)).later
  | stay spd found active queues holds left =>
    have ready := room.ready (countP_pos found active)
    have moved : Moving c stale (fd.moved c h ssc dsc k spd) lists ssc pds (k + 1) :=
      moving.move found active room.apart notErase notFailed ready
    obtain ⟨fits, tight⟩ := room.moved (h := h) moving found active
    refine ⟨moved.requeue room.apart notErase notFailed holds, room.apart, Or.inl ?_, ?_, ?_, ?_⟩
    · rw [requeued, if_neg left]
      simp
    · intro _
      rw [moved.books.pagesAvailable seen] at left
      exact Nat.pos_of_ne_zero left
    · rw [← poolPages_stay left] at fits
      exact fits
    · intro equal
      refine (tight ?_).later
      rw [← poolPages_stay left]
      exact equal
  | switch spd found active queues holds full next mem most =>
    have ready := room.ready (countP_pos found active)
    have moved : Moving c stale (fd.moved c h ssc dsc k spd) lists ssc pds (k + 1) :=
      moving.move found active room.apart notErase notFailed ready
    have later := moved.requeue room.apart notErase notFailed holds
    obtain ⟨fits, tight⟩ := room.moved (h := h) moving found active
    have empty : ((fd.moved c h ssc dsc k spd).segments dsc).countErased = 0 :=
      moved.books.pagesAvailable seen ▸ full
    rw [← poolPages_switch full empty mem] at fits tight
    refine ⟨later, ?_, Or.inl mem, ?_, fits, ?_⟩
    · rintro rfl
      exact later.free .available mem
    · intro some
      exact ready_of_most later.books (later.free .available) mem most (some.trans_le fits)
    · exact fun equal => (tight equal).later

/-- A requeued segment and all the others are on a queue. -/
theorem placed_requeued (disk : Flashdisk n δ) (holds : Holds queues lists)
    (notErase : dsc ∉ lists .erase) (notFailed : dsc ∉ lists .failed)
    (placed : s = dsc ∨ Placed lists s) : Placed (requeued disk lists dsc) s := by
  by_cases here : s = dsc
  · rw [here]
    exact requeued_self disk lists dsc
  · obtain ⟨name, mem⟩ := placed.resolve_left here
    exact ⟨name, (mem_requeued holds notErase notFailed here).mpr mem⟩

/-- A source without active pages from `k` on is erased. -/
theorem Moving.wiped (moving : Moving c stale fd lists ssc pds k)
    (moved : (pds.drop k).countP PageDesc.active = 0)
    (counted : (pds.drop k).countP PageDesc.erased = 0) :
    Books c stale (fd.wiped h ssc) (update lists .available (lists .available ++ [ssc])) ∅ 0 := by
  have books := moving.books
  rw [counted, ← insert_empty_eq ssc] at books
  apply books.wiped (by simp) moving.free
  · rw [SegmentCtl.pages, moving.descriptors, moving.length]
  · simp
  · intro block page mapped
    rcases moving.behind block page mapped with old | least
    · exact old
    rcases moving.books.mapped block ssc page mapped with old | ⟨pd, there, active, -⟩
    · exact old
    rw [moving.descriptors] at there
    refine absurd active (List.countP_eq_zero.mp moved pd ?_)
    apply List.mem_of_getElem? (i := page - k)
    rw [List.getElem?_drop, show k + (page - k) = page by omega]
    exact there

/-- A source of which nothing was moved is entered again. -/
theorem Moving.restore (moving : Moving c stale fd lists ssc pds k)
    (untouched : ∀ pd ∈ pds.take k, pd.active = false ∧ pd.erased = false) :
    Books c stale fd lists ∅ 0 ∧ (fd.segments ssc).Counted := by
  have split := fun test => countP_split pds k test
  have noneActive : (pds.take k).countP PageDesc.active = 0 :=
    List.countP_eq_zero.mpr fun pd mem => by simp [(untouched pd mem).1]
  have noneErased : (pds.take k).countP PageDesc.erased = 0 :=
    List.countP_eq_zero.mpr fun pd mem => by simp [(untouched pd mem).2]
  have allActive := split PageDesc.active
  have allErased := split PageDesc.erased
  have books := moving.books
  have active := moving.active
  have used := moving.used
  have counted : (fd.segments ssc).Counted := by
    constructor
    · rw [SegmentCtl.countActive, moving.descriptors]
      omega
    · rw [SegmentCtl.countUsed, moving.descriptors]
      omega
    · rw [SegmentCtl.countBad, moving.descriptors]
      exact moving.bad
  refine ⟨books.enter (by simp) ?_ counted moving.sound
    (fun mem => absurd mem (moving.free .used)) ?_ (by simp), counted⟩
  · rw [SegmentCtl.pages, moving.descriptors, moving.length]
  · rw [SegmentCtl.countErased, moving.descriptors]
    omega

/-- The books and the places of the segments after the function was left from a round. -/
theorem Round.left (careful : Careful c h) {ret rest : Nat}
    (moving : Moving c stale fd lists ssc pds k) (room : Room fd lists ssc dsc pds k)
    (round : Round c h ssc pds k fd lists dsc pages (.leave ret rest disk) after) :
    Books c stale disk after ∅ 0 ∧ ∀ s, s = ssc ∨ s = dsc ∨ Placed lists s → Placed after s := by
  obtain ⟨notErase, notFailed⟩ := room.good moving.books.holds
  cases round with
  | finish spd found active queues holds full nothing =>
    have seen := room.seen
    have moved : Moving c stale (fd.moved c h ssc dsc k spd) lists ssc pds (k + 1) :=
      moving.move found active room.apart notErase notFailed (room.ready (countP_pos found active))
    have later := moved.requeue room.apart notErase notFailed holds
    obtain ⟨fits, tight⟩ := room.moved (h := h) moving found active
    have empty : ((fd.moved c h ssc dsc k spd).segments dsc).countErased = 0 :=
      moved.books.pagesAvailable seen ▸ full
    have pool : poolPages (fd.moved c h ssc dsc k spd) lists dsc = 0 := by
      rw [poolPages, empty, ← requeued_available_full full, nothing]
      rfl
    have done : (pds.drop (k + 1)).countP PageDesc.active = 0 := by omega
    have wiped := later.wiped (h := h) done
      (tight (by omega) k spd (Nat.le_refl k) found active done)
    rw [nothing] at wiped
    refine ⟨wiped, ?_⟩
    rintro s (rfl | placed)
    · exact ⟨.available, List.mem_singleton_self s⟩
    · obtain ⟨name, mem⟩ := placed_requeued (fd.moved c h ssc dsc k spd)
        moving.books.holds notErase notFailed placed
      cases name with
      | available =>
        rw [nothing] at mem
        cases mem
      | used => exact ⟨.used, mem⟩
      | erase => exact ⟨.erase, mem⟩
      | failed => exact ⟨.failed, mem⟩
  | fail spd found active unread queues holds =>
    have untouched := careful.read fd ssc k unread
    rw [moving.descriptors] at untouched
    have later := moving.requeue room.apart notErase notFailed holds
    obtain ⟨restored, -⟩ := later.restore untouched
    have pushed : Holds (LinkedQueues.pushHead queues .used ssc) (update
        (requeued fd lists dsc) .used (ssc :: requeued fd lists dsc .used)) :=
      holds.pushHead later.free
    have busy : 0 < (fd.segments ssc).countActive := by
      rw [SegmentCtl.countActive, moving.descriptors]
      exact List.countP_pos_iff.mpr ⟨spd, List.mem_of_getElem? found, active⟩
    have used : ∀ s ∈ ssc :: requeued fd lists dsc .used,
        s ∈ requeued fd lists dsc .used ∨ 0 < (fd.segments s).countActive := by
      intro s mem
      rcases List.mem_cons.mp mem with rfl | mem
      · exact Or.inr busy
      · exact Or.inl mem
    refine ⟨(restored.push pushed (by decide) (by decide) fun _ => used).setDevice _, ?_⟩
    · rintro s (rfl | placed)
      · exact ⟨.used, by simp⟩
      · obtain ⟨name, mem⟩ := placed_requeued fd moving.books.holds notErase notFailed placed
        cases name with
        | available => exact ⟨.available, mem⟩
        | used => exact ⟨.used, List.mem_cons_of_mem ssc mem⟩
        | erase => exact ⟨.erase, mem⟩
        | failed => exact ⟨.failed, mem⟩

/-- The rest of the loop from page `k` on: from a disk with its lists, a destination and the pages
to move, to an error number, the pages left and a disk with its lists. -/
inductive Recycling (c : Config n blockSize) (stale : BitVec 32 → Prop)
    (h : Handlers n blockSize δ) (ssc : Fin n) (pds : List PageDesc) : Nat → Flashdisk n δ → (QueueName → List (Fin n)) → Fin n → Nat →
      Nat → Nat → Flashdisk n δ → (QueueName → List (Fin n)) → Prop where
  | proceed {k pages rest ret final : Nat} {fd disk last : Flashdisk n δ}
      {lists after latest : QueueName → List (Fin n)} {dsc destination : Fin n}
      (moving : Moving c stale fd lists ssc pds k) (room : Room fd lists ssc dsc pds k)
      (round : Round c h ssc pds k fd lists dsc pages (.proceed disk destination rest) after)
      (others : Recycling c stale h ssc pds (k + 1) disk after destination rest ret final last latest) :
      Recycling c stale h ssc pds k fd lists dsc pages ret final last latest
  | leave {k pages rest ret : Nat} {fd disk : Flashdisk n δ}
      {lists after : QueueName → List (Fin n)} {dsc : Fin n}
      (moving : Moving c stale fd lists ssc pds k) (room : Room fd lists ssc dsc pds k)
      (round : Round c h ssc pds k fd lists dsc pages (.leave ret rest disk) after) :
      Recycling c stale h ssc pds k fd lists dsc pages ret rest disk after
  | wipe {pages : Nat} {fd : Flashdisk n δ} {lists : QueueName → List (Fin n)} {dsc : Fin n}
      (moving : Moving c stale fd lists ssc pds pds.length)
      (room : Room fd lists ssc dsc pds pds.length) (ok : (h.erase fd ssc).1 = 0) :
      Recycling c stale h ssc pds pds.length fd lists dsc pages 0 pages (fd.wiped h ssc)
        (Function.update lists .available (lists .available ++ [ssc]))
  | condemn {pages : Nat} {fd : Flashdisk n δ} {lists : QueueName → List (Fin n)} {dsc : Fin n}
      (moving : Moving c stale fd lists ssc pds pds.length)
      (room : Room fd lists ssc dsc pds pds.length) (bad : (h.erase fd ssc).1 ≠ 0) :
      Recycling c stale h ssc pds pds.length fd lists dsc pages (h.erase fd ssc).1 pages
        (fd.condemned h ssc) (Function.update lists .failed (lists .failed ++ [ssc]))

/-- The loop has a result, and it goes through these rounds. -/
theorem recycleFrom_recycling (careful : Careful c h) {left : Nat}
    (moving : Moving c stale fd lists ssc pds k) (room : Room fd lists ssc dsc pds k)
    (length : k + left = pds.length) :
    ∃ ret rest disk after, recycleFrom c h ssc left k fd dsc pages = some (ret, rest, disk) ∧
      Recycling c stale h ssc pds k fd lists dsc pages ret rest disk after := by
  induction left generalizing k fd lists dsc pages with
  | zero =>
    obtain rfl : k = pds.length := length
    rw [recycleFrom]
    by_cases ok : (h.erase fd ssc).1 = 0
    · rw [eraseSegment_success ok]
      exact ⟨_, _, _, _, rfl, .wipe moving room ok⟩
    · rw [eraseSegment_failure moving.books.holds (moving.free .failed) ok]
      exact ⟨_, _, _, _, rfl, .condemn moving room ok⟩
  | succ left ih =>
    obtain ⟨out, after, result, round⟩ : ∃ out after,
        recyclePage c h fd ssc dsc k pages = some out ∧
          Round c h ssc pds k fd lists dsc pages out after :=
      recyclePage_round careful moving room (by omega)
    rw [recycleFrom, result]
    cases out with
    | proceed disk destination rest =>
      obtain ⟨movingNext, roomNext⟩ := round.next moving room
      obtain ⟨ret, final, last, latest, run, others⟩ : ∃ ret final last latest,
          recycleFrom c h ssc left (k + 1) disk destination rest = some (ret, final, last) ∧
            Recycling c stale h ssc pds (k + 1) disk after destination rest ret final last latest :=
        ih movingNext roomNext (by omega)
      exact ⟨ret, final, last, latest, run, .proceed moving room round others⟩
    | leave ret rest disk => exact ⟨ret, rest, disk, after, rfl, .leave moving room round⟩

section Recycled

variable {ret rest : Nat} {disk : Flashdisk n δ} {after : QueueName → List (Fin n)}

theorem Round.placed (moving : Moving c stale fd lists ssc pds k)
    (room : Room fd lists ssc dsc pds k)
    (round : Round c h ssc pds k fd lists dsc pages (.proceed disk destination rest) after)
    (placed : Placed lists s ∨ s = dsc ∧ 0 < (pds.drop k).countP PageDesc.active) :
    Placed after s ∨ s = destination ∧ 0 < (pds.drop (k + 1)).countP PageDesc.active := by
  obtain ⟨notErase, notFailed⟩ := room.good moving.books.holds
  cases round with
  | skip spd found notActive notErased =>
    have same := countP_drop_inactive found notActive
    exact same ▸ placed
  | pass spd found erased =>
    have same := countP_drop_inactive found (PageDesc.not_active_of_erased erased)
    exact same ▸ placed
  | stay spd found active queues holds left =>
    exact Or.inl (placed_requeued _ moving.books.holds notErase notFailed
      (placed.symm.imp And.left id))
  | switch spd found active queues holds full next mem most =>
    exact Or.inl (placed_requeued _ moving.books.holds notErase notFailed
      (placed.symm.imp And.left id))

/-- The books are in order after the loop, and no segment is lost. -/
theorem Recycling.books (careful : Careful c h)
    (run : Recycling c stale h ssc pds k fd lists dsc pages ret rest disk after) :
    Books c stale disk after ∅ 0 ∧ Placed after ssc ∧
      ∀ s, Placed lists s ∨ s = dsc ∧ 0 < (pds.drop k).countP PageDesc.active → Placed after s := by
  induction run with
  | proceed moving room round others ih =>
    obtain ⟨books, source, placed⟩ := ih
    exact ⟨books, source, fun s before => placed s (round.placed moving room before)⟩
  | leave moving room round =>
    obtain ⟨books, placed⟩ := round.left careful moving room
    refine ⟨books, placed _ (Or.inl rfl), fun s before => placed s (Or.inr ?_)⟩
    exact before.symm.imp And.left id
  | wipe moving room ok =>
    refine ⟨moving.wiped (by simp) (by simp), ⟨.available, by simp⟩, ?_⟩
    rintro s (⟨name, mem⟩ | ⟨-, active⟩)
    · refine ⟨name, ?_⟩
      cases name <;> simp [mem]
    · simp at active
  | condemn moving room bad =>
    rename_i disk lists dsc
    have idle := careful.erase disk ssc bad
    rw [SegmentCtl.countActive, moving.descriptors] at idle
    have books := moving.books
    rw [← insert_empty_eq ssc, List.drop_length, List.countP_nil] at books
    refine ⟨books.condemned (by simp) moving.free ?_ ?_ (by simp), ⟨.failed, by simp⟩, ?_⟩
    · rw [SegmentCtl.pages, moving.descriptors, moving.length]
    · constructor
      · rw [SegmentCtl.countActive, moving.descriptors, moving.active, idle]
        simp
      · rw [SegmentCtl.countUsed, moving.descriptors, moving.used, List.take_length, idle]
        rfl
      · rw [SegmentCtl.countBad, moving.descriptors]
        exact moving.bad
    · rintro s (⟨name, mem⟩ | ⟨-, active⟩)
      · refine ⟨name, ?_⟩
        cases name <;> simp [mem]
      · simp at active

/-- A destination that is larger than needed is not full after a move. -/
theorem not_full (moving : Moving c stale fd lists ssc pds k) (room : Room fd lists ssc dsc pds k)
    (found : pds[k]? = some spd) (active : spd.active = true)
    (larger : (pds.drop k).countP PageDesc.active < (fd.segments dsc).countErased) :
    ((fd.moved c h ssc dsc k spd).segments dsc).pagesAvailable ≠ 0 := by
  have seen := room.seen
  have size : (fd.segments dsc).pages < 2 ^ 32 := moving.books.pages dsc seen ▸ c.pages_lt dsc
  have one := countP_drop found PageDesc.active
  rw [active, if_pos rfl] at one
  obtain ⟨counted, less⟩ := moved_counted (c := c) (h := h) (k := k) room.apart
    (moving.books.counted dsc seen) size active (by omega)
  rw [counted.pagesAvailable]
  · omega
  · rw [moved_destination c h fd ssc dsc k spd room.apart, SegmentCtl.pages, List.length_set]
    exact size

/-- A round with a destination that is larger than needed. -/
theorem Round.roomy (moving : Moving c stale fd lists ssc pds k)
    (room : Room fd lists ssc dsc pds k)
    (larger : (pds.drop k).countP PageDesc.active < (fd.segments dsc).countErased)
    (enough : (pds.drop k).countP PageDesc.active ≤ pages)
    (round : Round c h ssc pds k fd lists dsc pages (.proceed disk destination rest) after) :
    destination = dsc ∧
      rest + (pds.drop k).countP PageDesc.active = pages + (pds.drop (k + 1)).countP PageDesc.active ∧
      after .used = lists .used ∧
      (disk.segments dsc).countErased + (pds.drop k).countP PageDesc.active =
        (fd.segments dsc).countErased + (pds.drop (k + 1)).countP PageDesc.active ∧
      (dsc ∈ lists .available ∨ (pds.drop (k + 1)).countP PageDesc.active <
        (pds.drop k).countP PageDesc.active → dsc ∈ after .available) ∧
      ∀ s, s ≠ ssc → s ≠ dsc → disk.segments s = fd.segments s := by
  have seen := room.seen
  have size : (fd.segments dsc).pages < 2 ^ 32 := moving.books.pages dsc seen ▸ c.pages_lt dsc
  cases round with
  | skip spd found notActive notErased =>
    have same := countP_drop_inactive found notActive
    refine ⟨rfl, by omega, rfl, by omega, ?_, fun _ _ _ => rfl⟩
    rintro (there | less)
    · exact there
    · omega
  | pass spd found erased =>
    have same := countP_drop_inactive found (PageDesc.not_active_of_erased erased)
    refine ⟨rfl, by omega, rfl, ?_, ?_, fun _ _ _ => rfl⟩
    · change (fd.segments dsc).countErased + _ = _
      omega
    · rintro (there | less)
      · exact there
      · omega
  | stay spd found active queues holds left =>
    have one := countP_drop found PageDesc.active
    rw [active, if_pos rfl] at one
    obtain ⟨-, less⟩ := moved_counted (c := c) (h := h) (k := k) room.apart
      (moving.books.counted dsc seen) size active (by omega)
    refine ⟨rfl, ?_, ?_, ?_, ?_, ?_⟩
    · rw [decrement_of_pos (by omega)]
      omega
    · have notUsed : dsc ∉ lists .used := by
        rcases room.place with there | free
        · intro other
          cases moving.books.holds.disjoint _ _ _ there other
        · exact free .used
      rw [requeued, if_neg left]
      exact List.erase_of_not_mem notUsed
    · change ((fd.moved c h ssc dsc k spd).segments dsc).countErased + _ = _
      omega
    · rw [requeued, if_neg left]
      simp
    · exact fun s notSource notDestination =>
        moved_other c h fd ssc dsc k spd notSource notDestination
  | switch spd found active queues holds full next mem most =>
    exact absurd full (not_full (h := h) moving room found active larger)

/-- Recycling into a destination that is larger than needed, without an error. -/
theorem Recycling.roomy (run : Recycling c stale h ssc pds k fd lists dsc pages ret rest disk after)
    (fine : ret = 0)
    (larger : (pds.drop k).countP PageDesc.active < (fd.segments dsc).countErased)
    (enough : (pds.drop k).countP PageDesc.active ≤ pages) :
    rest + (pds.drop k).countP PageDesc.active = pages ∧ after .used = lists .used ∧
      (disk.segments dsc).countErased + (pds.drop k).countP PageDesc.active =
        (fd.segments dsc).countErased ∧
      (dsc ∈ lists .available ∨ 0 < (pds.drop k).countP PageDesc.active → dsc ∈ after .available) ∧
      ∀ s, s ≠ ssc → s ≠ dsc → disk.segments s = fd.segments s := by
  induction run with
  | proceed moving room round others ih =>
    obtain ⟨rfl, spent, used, erased, place, same⟩ := round.roomy moving room larger enough
    obtain ⟨allSpent, allUsed, allErased, finally', allSame⟩ := ih fine (by omega) (by omega)
    refine ⟨by omega, allUsed.trans used, by omega, ?_, ?_⟩
    · rintro (there | some)
      · exact finally' (Or.inl (place (Or.inl there)))
      · refine finally' (or_iff_not_imp_right.mpr fun none => place (Or.inr ?_))
        omega
    · exact fun s notSource notDestination =>
        (allSame s notSource notDestination).trans (same s notSource notDestination)
  | leave moving room round =>
    cases round with
    | finish spd found active queues holds full nothing =>
      exact absurd full (not_full moving room found active larger)
    | fail spd found active unread queues holds => exact absurd fine unread
  | wipe moving room ok =>
    rw [List.drop_length]
    refine ⟨rfl, rfl, ?_, ?_, ?_⟩
    · rw [Flashdisk.wiped]
      dsimp only
      rw [update_of_ne room.apart]
      rfl
    · rintro (there | none)
      · exact List.mem_append_left _ there
      · cases none
    · exact fun s notSource _ => update_of_ne notSource _ _
  | condemn moving room bad => exact absurd fine bad

end Recycled

end Rtems.Block.FlashDisk
