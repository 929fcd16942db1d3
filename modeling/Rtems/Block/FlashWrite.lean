import Rtems.Block.FlashCompact

/-!
# Writing a block to the flash disk

From the moment its old page is flagged until the data are stored, the block that is written is
stale: its mapping leads to a used page. All the other books are kept by each part of the write.
-/

namespace Rtems.Block.FlashDisk

open LinkedQueues
open Function (update update_idem update_of_ne update_self)

variable {n blockSize : Nat} {δ : Type} {c : Config n blockSize} {h : Handlers n blockSize δ}
  {fd : Flashdisk n δ} {lists : QueueName → List (Fin n)} {sc : Fin n}
  {stale : BitVec 32 → Prop} {block : BitVec 32} {buf : Page blockSize} {page : Nat}

/-- No block is stale. -/
def Fresh (_ : BitVec 32) : Prop := False

section Erase

/-- A segment that waited for its erasure is available or failed afterwards. -/
theorem eraseSegment_spent {others : List (Fin n)} (kept : Kept c stale fd lists)
    (first : lists .erase = sc :: others) :
    ∃ queues ret disk after, fd.popHead .erase = (some sc, { fd with queues := queues }) ∧
      eraseSegment h { fd with queues := queues } sc = some (ret, disk) ∧
      Kept c stale disk after ∧ after .erase = others := by
  obtain ⟨queues, popped, books, free⟩ := kept.books.popHead first (by decide)
  obtain ⟨idle, full⟩ := kept.books.spent sc (first ▸ List.mem_cons_self)
  have seen : sc ∉ (∅ : Finset (Fin n)) := by simp
  have hidden := books.hide seen (free .erase) (free .failed)
  rw [show (({ fd with queues := queues } : Flashdisk n δ).segments sc).countErased = 0 from full]
    at hidden
  have placed : ∀ s, s ≠ sc → Placed (update lists .erase others) s := by
    intro s ne
    obtain ⟨name, mem⟩ := kept.placed s
    refine ⟨name, ?_⟩
    cases name with
    | erase =>
      rw [first] at mem
      exact (List.mem_cons.mp mem).resolve_left ne
    | available | used | failed => exact mem
  by_cases ok : (h.erase { fd with queues := queues } sc).1 = 0
  · refine ⟨queues, _, _, _, popped, eraseSegment_success ok,
      ⟨hidden.wiped seen free (books.pages sc seen) (by simp) (books.unmapped idle), fun s => ?_⟩, rfl⟩
    by_cases here : s = sc
    · exact ⟨.available, by simp [here]⟩
    · obtain ⟨name, mem⟩ := placed s here
      refine ⟨name, ?_⟩
      cases name <;> simp_all
  · refine ⟨queues, _, _, _, popped, eraseSegment_failure books.holds (free .failed) ok,
      ⟨hidden.condemned seen free (books.pages sc seen) (books.counted sc seen) (by simp),
        fun s => ?_⟩, rfl⟩
    by_cases here : s = sc
    · exact ⟨.failed, by simp [here]⟩
    · obtain ⟨name, mem⟩ := placed s here
      refine ⟨name, ?_⟩
      cases name <;> simp_all

/-- `rtems_fdisk_erase_used` ends and keeps the books, whatever the driver does. -/
theorem eraseUsed_spec (kept : Kept c stale fd lists) :
    ∃ ret disk after, eraseUsed h fd = some (ret, disk) ∧ Kept c stale disk after := by
  have loop : ∀ (fuel latched : Nat) (fd : Flashdisk n δ) (lists : QueueName → List (Fin n)),
      Kept c stale fd lists → (lists .erase).length ≤ fuel →
      ∃ ret disk after, eraseUsedFrom h fuel latched fd = some (ret, disk) ∧
        Kept c stale disk after := by
    intro fuel
    induction fuel with
    | zero =>
      intro latched fd lists kept enough
      have nothing : lists .erase = [] := List.length_eq_zero_iff.mp (Nat.le_zero.mp enough)
      rw [eraseUsedFrom.eq_def]
      simp only [kept.books.popHead_nil nothing]
      exact ⟨latched, fd, lists, rfl, kept⟩
    | succ fuel ih =>
      intro latched fd lists kept enough
      cases first : lists .erase with
      | nil =>
        rw [eraseUsedFrom.eq_def]
        simp only [kept.books.popHead_nil first]
        exact ⟨latched, fd, lists, rfl, kept⟩
      | cons sc others =>
        obtain ⟨queues, ret, disk, after, popped, res, keptAfter, rest⟩ :=
          eraseSegment_spent (h := h) kept first
        rw [eraseUsedFrom.eq_def]
        simp only [popped, res]
        refine ih _ disk after keptAfter ?_
        rw [first, List.length_cons] at enough
        rw [rest]
        omega
  exact loop n 0 fd lists kept (length_le kept.books.holds .erase)

end Erase

section Flag

theorem segWritePageDescFlags_careful (careful : Careful c h) (fd : Flashdisk n δ) (sc : Fin n)
    (page : Nat) (pd : PageDesc) :
    ∃ dev, segWritePageDescFlags c h fd sc page pd = (0, { fd with device := dev }) := by
  rw [segWritePageDescFlags]
  by_cases checks : c.blankCheckBeforeWrite = true
  · have ok := careful.flags checks fd sc page
    rw [if_pos checks]
    generalize h.readFlags fd sc page = answer at ok ⊢
    obtain ⟨ret, flags, dev⟩ := answer
    dsimp only at ok ⊢
    rw [if_neg (not_not.mpr ok)]
    split
    · exact ⟨dev, by rw [ok]⟩
    · rw [segWrite_careful careful]
      exact ⟨_, rfl⟩
  · rw [if_neg checks, segWrite_careful careful]
    exact ⟨_, rfl⟩

/-- More blocks are stale, or fewer. -/
theorem Books.restale {later : BitVec 32 → Prop} {ignored : Finset (Fin n)} {extra : Nat}
    (books : Books c stale fd lists ignored extra)
    (known : ∀ b, stale b → fd.blocks b ≠ none → later b) : Books c later fd lists ignored extra := by
  apply books.modify rfl (fun _ _ => rfl) rfl books.room
  intro b s p found
  exact (books.mapped b s p found).imp (fun old => known b old (by simp [found])) id

/-- A segment on the failed queue changes, and nothing that counts its erased pages. -/
theorem Books.amendFailed (books : Books c stale fd lists ∅ 0) {after : Flashdisk n δ}
    (there : sc ∈ lists .failed) (queues : after.queues = fd.queues)
    (erased : after.erasedBlocks = fd.erasedBlocks)
    (same : ∀ s, s ≠ sc → after.segments s = fd.segments s)
    (failed : (after.segments sc).failed = true) (pages : (after.segments sc).pages = c.pages sc)
    (counted : (after.segments sc).Counted) (mapped : ∀ b s p, after.blocks b = some (s, p) → stale
      b ∨ ∃ pd, (after.segments s).pageDescriptors[p]? = some pd ∧ pd.active = true ∧ pd.block = b) :
    Books c stale after lists ∅ 0 := by
  have elsewhere : ∀ name, name ≠ .failed → sc ∉ lists name := by
    intro name ne mem
    exact ne (books.holds.disjoint name .failed sc mem there)
  constructor
  case holds => exact queues ▸ books.holds
  case apart => exact books.apart
  case pages =>
    intro s seen
    by_cases here : s = sc
    · exact here ▸ pages
    · exact (same s here) ▸ books.pages s seen
  case counted =>
    intro s seen
    by_cases here : s = sc
    · exact here ▸ counted
    · exact (same s here) ▸ books.counted s seen
  case failing =>
    intro s seen
    by_cases here : s = sc
    · subst here
      simp [failed, there]
    · exact (same s here) ▸ books.failing s seen
  case spent =>
    intro s mem
    rw [same s fun here => elsewhere .erase (by decide) (here ▸ mem)]
    exact books.spent s mem
  case busy =>
    intro s mem seen
    rw [same s fun here => elsewhere .used (by decide) (here ▸ mem)]
    exact books.busy s mem seen
  case total =>
    have before : (fd.segments sc).failed = true := (books.failing sc (by simp)).mpr there
    rw [erased, books.total, erasedPages_insert_failed failed, erasedPages_insert_failed before,
      erasedPages_congr fun s outside => (same s fun here =>
        outside (here ▸ Finset.mem_insert_self sc ∅)).symm]
  case room => exact books.room
  case mapped => exact mapped

/-- The control of a segment one of whose active pages is flagged as used. -/
def SegmentCtl.flagged (control : SegmentCtl) (page : Nat) (pd : PageDesc) : SegmentCtl :=
  { control with
    pageDescriptors := control.pageDescriptors.set page pd
    pagesActive := decrement control.pagesActive
    pagesUsed := increment control.pagesUsed }

section Control

variable {ctl : SegmentCtl} {old new : PageDesc}

theorem SegmentCtl.flagged_counted (counted : ctl.Counted) (small : ctl.pages < 2 ^ 32)
    (found : ctl.pageDescriptors[page]? = some old) (active : old.active = true)
    (used : new.used = true) :
    (ctl.flagged page new).Counted ∧ (ctl.flagged page new).countErased = ctl.countErased := by
  have wasErased := PageDesc.not_erased_of_active active
  have wasUsed := PageDesc.not_used_of_active active
  have wasBad : old.bad = false := by simp [PageDesc.bad, active]
  have isActive := PageDesc.not_active_of_used used
  have isErased := PageDesc.not_erased_of_used used
  have isBad : new.bad = false := by simp [PageDesc.bad, used]
  have change : ∀ test : PageDesc → Bool,
      (ctl.pageDescriptors.set page new).countP test + (if test old then 1 else 0) =
        ctl.pageDescriptors.countP test + (if test new then 1 else 0) :=
    SegmentCtl.countP_set found
  have sameErased := change PageDesc.erased
  have lessActive := change PageDesc.active
  have moreUsed := change PageDesc.used
  have sameBad := change PageDesc.bad
  have all := SegmentCtl.countP_states ctl.pageDescriptors
  have positive : 0 < ctl.countActive :=
    List.countP_pos_iff.mpr ⟨old, List.mem_of_getElem? found, active⟩
  have oldActive := counted.active
  have oldUsed := counted.used
  have few : ctl.pagesUsed + 1 < 2 ^ 32 := by
    simp only [SegmentCtl.countActive, SegmentCtl.countUsed, SegmentCtl.pages] at *
    omega
  simp only [active, used, wasErased, wasUsed, wasBad, isActive, isErased, isBad, ↓reduceIte,
    Bool.false_eq_true] at sameErased lessActive moreUsed sameBad
  refine ⟨⟨?_, ?_, ?_⟩, sameErased⟩
  · change decrement ctl.pagesActive = (ctl.pageDescriptors.set page new).countP _
    rw [decrement_of_pos (by omega), oldActive, SegmentCtl.countActive]
    omega
  · change increment ctl.pagesUsed = (ctl.pageDescriptors.set page new).countP _
    rw [increment_of_lt few, oldUsed, SegmentCtl.countUsed]
    exact moreUsed.symm
  · exact counted.bad.trans sameBad.symm

theorem SegmentCtl.flagged_pages : (ctl.flagged page new).pages = ctl.pages := by
  simp [SegmentCtl.flagged, SegmentCtl.pages]

end Control

/-- The disk after the old page of a block was flagged, before its segment is queued again. -/
def Flashdisk.flagged (fd : Flashdisk n δ) (sc : Fin n) (page : Nat) (device : δ) : Flashdisk n δ :=
  let pd := ((fd.segments sc).pageDescriptors.getD page PageDesc.blank).setFlags pageUsed
  { fd with
    device := device
    segments := Function.update fd.segments sc ((fd.segments sc).flagged page pd) }

theorem flagUsed_careful (careful : Careful c h) (fd : Flashdisk n δ) (sc : Fin n) (page : Nat) :
    ∃ dev, flagUsed c h fd sc page = queueSegment c h (fd.flagged sc page dev) sc := by
  rw [flagUsed]
  obtain ⟨dev, written⟩ := segWritePageDescFlags_careful careful
    (fd.setSegment sc { fd.segments sc with
      pageDescriptors := (fd.segments sc).pageDescriptors.set page
        (((fd.segments sc).pageDescriptors.getD page PageDesc.blank).setFlags pageUsed) }) sc page
    (((fd.segments sc).pageDescriptors.getD page PageDesc.blank).setFlags pageUsed)
  refine ⟨dev, ?_⟩
  rw [written]
  simp only [ne_eq, not_true_eq_false, if_false, Flashdisk.flagged, Flashdisk.setSegment,
    update_self, update_idem, SegmentCtl.flagged]

/-- Where the blocks other than the flagged one are mapped stays as it was. -/
theorem Books.flagged_mapped (books : Books c Fresh fd lists ∅ 0)
    (found : fd.blocks block = some (sc, page)) (dev : δ) (b : BitVec 32) (s : Fin n) (p : Nat)
    (there : (fd.flagged sc page dev).blocks b = some (s, p)) :
    b = block ∨ ∃ pd, ((fd.flagged sc page dev).segments s).pageDescriptors[p]? = some pd ∧
        pd.active = true ∧ pd.block = b := by
  by_cases same : b = block
  · exact Or.inl same
  refine Or.inr ?_
  rcases books.mapped b s p there with old | ⟨pd, place, active, name⟩
  · exact old.elim
  refine ⟨pd, ?_, active, name⟩
  by_cases here : s = sc
  · subst here
    rcases books.mapped block s page found with old | ⟨other, otherPlace, -, otherName⟩
    · exact old.elim
    have apart : page ≠ p := by
      rintro rfl
      rw [place] at otherPlace
      rw [Option.some.inj otherPlace, otherName] at name
      exact same name.symm
    simp only [Flashdisk.flagged, update_self, SegmentCtl.flagged]
    rw [List.getElem?_set_ne apart]
    exact place
  · simp only [Flashdisk.flagged, update_of_ne here]
    exact place

/-- Flagging the old page of a block keeps the books but for the block's mapping. -/
theorem flagUsed_spec (careful : Careful c h) (kept : Kept c Fresh fd lists)
    (found : fd.blocks block = some (sc, page)) :
    ∃ disk after, flagUsed c h fd sc page = some disk ∧ Kept c (· = block) disk after := by
  obtain ⟨dev, flagged⟩ := flagUsed_careful careful fd sc page
  have seen : sc ∉ (∅ : Finset (Fin n)) := by simp
  have counted := kept.books.counted sc seen
  have pages := kept.books.pages sc seen
  have small : (fd.segments sc).pages < 2 ^ 32 := pages ▸ c.pages_lt sc
  obtain ⟨pd, place, active, -⟩ : ∃ pd, (fd.segments sc).pageDescriptors[page]? = some pd ∧
      pd.active = true ∧ pd.block = block :=
    (kept.books.mapped block sc page found).resolve_left id
  have self : (fd.flagged sc page dev).segments sc = (fd.segments sc).flagged page
      (((fd.segments sc).pageDescriptors.getD page PageDesc.blank).setFlags pageUsed) :=
    update_self sc _ fd.segments
  have other : ∀ s, s ≠ sc → (fd.flagged sc page dev).segments s = fd.segments s :=
    fun s ne => update_of_ne ne _ _
  obtain ⟨countedAfter, erasedAfter⟩ :=
    SegmentCtl.flagged_counted counted small place active (PageDesc.used_setFlags _)
  have mapped := kept.books.flagged_mapped found dev
  have books : Books c (· = block) fd lists ∅ 0 := kept.books.restale fun _ old => old.elim
  rw [flagged]
  by_cases failed : sc ∈ lists .failed
  · have flag : (fd.segments sc).failed = true := (kept.books.failing sc seen).mpr failed
    have amended : Books c (· = block) (fd.flagged sc page dev) lists ∅ 0 := by
      apply books.amendFailed failed
      case queues => rfl
      case erased => rfl
      case same => exact other
      case failed =>
        rw [self]
        exact flag
      case pages =>
        rw [self, SegmentCtl.flagged_pages]
        exact pages
      case counted => exact self ▸ countedAfter
      case mapped => exact mapped
    refine ⟨fd.flagged sc page dev, lists, ?_, amended, kept.placed⟩
    apply queueSegment_failed amended.holds failed
    rw [self]
    exact flag
  · have notErase : sc ∉ lists .erase := by
      intro mem
      have idle := (kept.books.spent sc mem).1
      exact absurd active (by
        simpa using List.countP_eq_zero.mp idle pd (List.mem_of_getElem? place))
    have hidden := books.hide seen notErase failed
    have sound : (fd.segments sc).failed = false := by
      rw [Bool.eq_false_iff, ne_eq, kept.books.failing sc seen]
      exact failed
    have changed : Books c (· = block) (fd.flagged sc page dev) lists (insert sc ∅)
        (0 + ((fd.flagged sc page dev).segments sc).countErased) := by
      rw [self, erasedAfter]
      apply hidden.modify
      case queues => rfl
      case same =>
        intro s outside
        exact other s fun here => outside (here ▸ Finset.mem_insert_self sc ∅)
      case total => rfl
      case room => exact hidden.room
      case mapped => exact mapped
    obtain ⟨disk, after, queued, booksAfter, placed, others, -⟩ :=
      changed.queueSegment (h := h) seen (by rw [self, SegmentCtl.flagged_pages]; exact pages)
        (self ▸ countedAfter) (by rw [self]; exact sound) (by simp)
    refine ⟨disk, after, queued, booksAfter, fun s => ?_⟩
    by_cases here : s = sc
    · exact here ▸ placed
    · obtain ⟨name, mem⟩ := kept.placed s
      exact ⟨name, (others s here name).mpr mem⟩

end Flag

section Store

/-- The descriptor of a page that is written with a block. -/
def storedDesc (block : BitVec 32) (buffer : Page blockSize) : PageDesc :=
  { PageDesc.blank with crc := pageChecksum buffer, block := block }.setFlags pageActive

theorem storedDesc_active : (storedDesc block buf).active = true := by
  have flags : (0xffff#16 &&& ~~~pageActive) &&& pageActive = 0 ∧
      (0xffff#16 &&& ~~~pageActive) &&& pageUsed ≠ 0 := by decide
  simp [PageDesc.active, PageDesc.flagsSet, storedDesc, PageDesc.setFlags, PageDesc.blank, flags.1]
  exact flags.2

/-- The disk after the data were stored, before the segment is queued again. -/
def Flashdisk.stored (fd : Flashdisk n δ) (sc : Fin n) (block : BitVec 32)
    (buffer : Page blockSize) (device : δ) : Flashdisk n δ :=
  { fd with
    blocks := Function.update fd.blocks block (some (sc, (fd.segments sc).nextAvailablePage))
    erasedBlocks := decrement fd.erasedBlocks
    segments := Function.update fd.segments sc ((fd.segments sc).filled (storedDesc block buffer))
    device := device }

theorem storeBlock_careful (careful : Careful c h) (room : 0 < (fd.segments sc).countErased) :
    ∃ dev, storeBlock c h fd sc block buf =
      (queueSegment c h (fd.stored sc block buf dev) sc).map fun disk => (.stored 0, disk) := by
  obtain ⟨inside, found⟩ := SegmentCtl.nextAvailablePage_spec room
  have old : (fd.segments sc).pageDescriptors.getD (fd.segments sc).nextAvailablePage
      PageDesc.blank = PageDesc.blank := by
    rw [List.getD_eq_getElem?_getD, found]
    rfl
  generalize next : (fd.segments sc).nextAvailablePage = page at *
  obtain ⟨first, written⟩ := segWritePage_careful careful sc
    (({ fd with blocks := update fd.blocks block (some (sc, page)) } :
      Flashdisk n δ).setSegment sc { fd.segments sc with
          pageDescriptors := (fd.segments sc).pageDescriptors.set page (storedDesc block buf) })
    page buf
  obtain ⟨second, described⟩ := segWritePageDesc_careful careful sc
    { (({ fd with blocks := update fd.blocks block (some (sc, page)) } :
      Flashdisk n δ).setSegment sc { fd.segments sc with
          pageDescriptors := (fd.segments sc).pageDescriptors.set page (storedDesc block buf) })
      with
      device := first
      erasedBlocks := decrement fd.erasedBlocks } page (storedDesc block buf)
  refine ⟨second, ?_⟩
  have desc : ({ PageDesc.blank with crc := pageChecksum buf, block := block } :
      PageDesc).setFlags pageActive = storedDesc block buf := rfl
  rw [storeBlock]
  dsimp only
  rw [next, if_pos inside, old, desc, written]
  simp only [Flashdisk.setSegment] at described
  simp only [Flashdisk.setSegment, ne_eq, not_true_eq_false, ↓reduceIte, described]
  simp only [Flashdisk.stored, SegmentCtl.filled, update_self, update_idem, next]
  cases queueSegment c h _ sc <;> rfl

section Claim

variable {others : List (Fin n)}

/-- Every segment but the first of a queue is still on its queue. -/
theorem placed_rest (kept : Kept c stale fd lists) {name : QueueName}
    (first : lists name = sc :: others) (s : Fin n) (ne : s ≠ sc) :
    Placed (update lists name others) s := by
  obtain ⟨other, mem⟩ := kept.placed s
  refine ⟨other, ?_⟩
  by_cases here : other = name
  · subst here
    rw [first] at mem
    rw [update_self]
    exact (List.mem_cons.mp mem).resolve_left ne
  · rwa [update_of_ne here]

/-- The stored block is mapped to its page, and no other mapping changed. -/
theorem Books.stored_mapped (books : Books c stale fd lists ∅ 0) (only : ∀ b, stale b → b = block)
    (room : 0 < (fd.segments sc).countErased) (dev : δ) (b : BitVec 32) (s : Fin n) (p : Nat)
    (there : (fd.stored sc block buf dev).blocks b = some (s, p)) :
    Fresh b ∨ ∃ pd, ((fd.stored sc block buf dev).segments s).pageDescriptors[p]? = some pd ∧
        pd.active = true ∧ pd.block = b := by
  obtain ⟨inside, blank⟩ := SegmentCtl.nextAvailablePage_spec room
  refine Or.inr ?_
  by_cases same : b = block
  · subst same
    obtain ⟨rfl, rfl⟩ : sc = s ∧ (fd.segments sc).nextAvailablePage = p := by
      simpa [Flashdisk.stored] using there
    refine ⟨storedDesc b buf, ?_, storedDesc_active, rfl⟩
    simp only [Flashdisk.stored, update_self]
    exact List.getElem?_set_self inside
  · have before : fd.blocks b = some (s, p) := by
      rw [← there]
      exact (update_of_ne same _ _).symm
    rcases books.mapped b s p before with old | ⟨pd, place, active, name⟩
    · exact absurd (only b old) same
    refine ⟨pd, ?_, active, name⟩
    by_cases here : s = sc
    · subst here
      have apart : (fd.segments s).nextAvailablePage ≠ p := by
        rintro rfl
        rw [blank] at place
        rw [← Option.some.inj place] at active
        exact absurd active (by decide)
      simp only [Flashdisk.stored, update_self, SegmentCtl.filled]
      rw [List.getElem?_set_ne apart]
      exact place
    · simp only [Flashdisk.stored, update_of_ne here]
      exact place

/-- A segment without an erased page is given up. -/
theorem storeBlock_full (full : (fd.segments sc).countErased = 0) (holds : Holds fd.queues lists)
    (notFailed : sc ∉ lists .failed) :
    storeBlock c h fd sc block buf = some (.done eio,
      fd.condemned { h with erase := fun fd _ => (1, fd.device) } sc) := by
  have absent : ∀ ctl, (fd.setSegment sc ctl).present .failed sc = some false := by
    intro ctl
    have same : (fd.setSegment sc ctl).present .failed sc = fd.present .failed sc := rfl
    rw [same, present_eq holds, decide_eq_false notFailed]
  have none : ¬(fd.segments sc).nextAvailablePage < (fd.segments sc).pages :=
    Nat.not_lt.mpr (SegmentCtl.nextAvailablePage_none full)
  rw [storeBlock]
  rw [if_neg none, queueSegment, if_pos (by simp [Flashdisk.setSegment]), Flashdisk.pushFailed, absent]
  rfl

/-- The data are stored in the first available segment, or the segment is given up. -/
theorem storeBlock_spec (block : BitVec 32) (buf : Page blockSize) (careful : Careful c h)
    (kept : Kept c stale fd lists) (only : ∀ b, stale b → b = block) (first : lists .available = sc :: others)
    (roomy : (∀ b, stale b → fd.blocks b = none) ∨ 0 < (fd.segments sc).countErased) :
    ∃ queues stage disk after, fd.popHead .available = (some sc, { fd with queues := queues }) ∧
      storeBlock c h { fd with queues := queues } sc block buf = some (stage, disk) ∧
      Kept c Fresh disk after ∧ (stage = .stored 0 ∨ stage = .done eio) := by
  obtain ⟨queues, popped, books, free⟩ := kept.books.popHead first (by decide)
  have seen : sc ∉ (∅ : Finset (Fin n)) := by simp
  have counted := kept.books.counted sc seen
  have pages := kept.books.pages sc seen
  have small : (fd.segments sc).pages < 2 ^ 32 := pages ▸ c.pages_lt sc
  have placed := placed_rest kept first
  by_cases room : 0 < (fd.segments sc).countErased
  · obtain ⟨dev, stored⟩ : ∃ dev, storeBlock c h { fd with queues := queues } sc block buf =
        (queueSegment c h (({ fd with queues := queues } : Flashdisk n δ).stored sc block buf
          dev) sc).map fun disk => (.stored 0, disk) := storeBlock_careful careful room
    generalize res : ({ fd with queues := queues } : Flashdisk n δ).stored sc block buf dev =
      disk at stored
    have sound : (fd.segments sc).failed = false := by
      rw [Bool.eq_false_iff, ne_eq, books.failing sc seen]
      exact free .failed
    have self : disk.segments sc = (fd.segments sc).filled (storedDesc block buf) := by
      rw [← res]
      exact update_self sc _ fd.segments
    have mapped : ∀ b s p, disk.blocks b = some (s, p) → Fresh b ∨
        ∃ pd, (disk.segments s).pageDescriptors[p]? = some pd ∧ pd.active = true ∧ pd.block = b := by
      rw [← res]
      exact books.stored_mapped only room dev
    have active : (storedDesc block buf).active = true := storedDesc_active
    obtain ⟨countedAfter, less⟩ := SegmentCtl.filled_counted counted small active room
    have hidden := books.hide seen (free .erase) (free .failed)
    have changed : Books c Fresh disk (update lists .available others) (insert sc ∅)
        (0 + (disk.segments sc).countErased) := by
      rw [self]
      apply hidden.modify
      case queues =>
        rw [← res]
        rfl
      case same =>
        intro s outside
        have ne : s ≠ sc := by
          rintro rfl
          exact outside (Finset.mem_insert_self s ∅)
        rw [← res]
        exact update_of_ne ne _ _
      case total =>
        have total := hidden.total
        have count : disk.erasedBlocks = decrement fd.erasedBlocks := by
          rw [← res]
          rfl
        dsimp only at total ⊢
        rw [count, decrement_of_pos (by omega)]
        omega
      case room =>
        have bound := hidden.room
        dsimp only at bound
        omega
      case mapped => exact mapped
    obtain ⟨last, after, queued, booksAfter, source, same, -⟩ :=
      changed.queueSegment (h := h) seen (by rw [self, SegmentCtl.filled_pages]; exact pages)
        (self ▸ countedAfter) (by rw [self]; exact sound) (by simp)
    refine ⟨queues, .stored 0, last, after, popped, by rw [stored, queued]; rfl, ⟨booksAfter, ?_⟩,
      Or.inl rfl⟩
    intro s
    by_cases here : s = sc
    · exact here ▸ source
    · obtain ⟨name, mem⟩ := placed s here
      exact ⟨name, (same s here name).mpr mem⟩
  · have full : (fd.segments sc).countErased = 0 := Nat.eq_zero_of_not_pos room
    have fresh : Books c Fresh { fd with queues := queues } (update lists .available others)
        ∅ 0 := by
      apply books.restale
      intro b old there
      exact there ((roomy.resolve_right room) b old)
    have hidden := fresh.hide seen (free .erase) (free .failed)
    rw [show (({ fd with queues := queues } : Flashdisk n δ).segments sc).countErased = 0 from full]
      at hidden
    refine ⟨queues, .done eio, _, _, popped, storeBlock_full full books.holds (free .failed),
      ⟨hidden.condemned seen free pages counted (by simp), ?_⟩, Or.inr rfl⟩
    intro s
    by_cases here : s = sc
    · exact ⟨.failed, by simp [here]⟩
    · obtain ⟨name, mem⟩ := placed s here
      refine ⟨name, ?_⟩
      cases name <;> simp_all

end Claim

end Store

section Stages

/-- If there is a starvation, the segment that would be recycled has room. -/
def Spacious (c : Config n blockSize) (fd : Flashdisk n δ) : Prop :=
  isErasedBlocksStarvation c fd = true → ∀ lists, Holds fd.queues lists → Fits fd lists

/-- The books at a stage of a write: until the data are stored, the block is stale. -/
def Underway (c : Config n blockSize) (lists : QueueName → List (Fin n)) :
    Stage blockSize → Flashdisk n δ → Prop
  | .foreground block _, fd => Kept c (· = block) fd lists
  | .sizing block _, fd => Kept c (· = block) fd lists
  | .claiming block _, fd => Kept c (· = block) fd lists
  | .full _ _, fd => Kept c Fresh fd lists
  | .stored _, fd => Kept c Fresh fd lists
  | .done _, fd => Kept c Fresh fd lists

/-- What the next part of a write needs of the disk: room wherever it compacts, and an erased page
for a block that has lost its old page. -/
def Provided (c : Config n blockSize) : Stage blockSize → Flashdisk n δ → Prop
  | .foreground _ _, fd => c.backgroundCompact = false → Spacious c fd
  | .sizing _ _, fd =>
    (∃ count, fd.countQueue .available = some count ∧ count ≤ c.availCompactSegs) → Spacious c fd
  | .claiming block _, fd => fd.blocks block ≠ none →
    ∃ sc, (fd.queues.queue .available).head = some sc ∧ 0 < (fd.segments sc).countErased
  | .full _ _, fd => c.backgroundCompact = true → Spacious c fd
  | .stored _, fd => Spacious c fd
  | .done _, _ => True

theorem compactIf_spec (careful : Careful c h) (kept : Kept c stale fd lists) (wanted : Bool)
    (spacious : wanted = true → Spacious c fd) :
    ∃ disk after, compactIf c h wanted fd = some disk ∧ Kept c stale disk after := by
  rw [compactIf]
  cases wanted with
  | false => exact ⟨fd, lists, rfl, kept⟩
  | true =>
    obtain ⟨ret, disk, after, res, -, keptAfter⟩ := compact_spec careful kept
      fun starving => spacious rfl starving lists kept.books.holds
    exact ⟨disk, after, by rw [if_pos rfl, res]; rfl, keptAfter⟩

/-- The first part of a write. -/
theorem beginWrite_spec (careful : Careful c h) (kept : Kept c Fresh fd lists) :
    ∃ stage disk after, beginWrite c h fd block buf = some (stage, disk) ∧
      Underway c after stage disk := by
  rw [beginWrite]
  by_cases inside : block.toNat ≥ c.blockCount - c.unavailBlocks
  · exact ⟨.done eio, fd, lists, if_pos inside, kept⟩
  rw [if_neg inside]
  cases found : fd.blocks block with
  | none =>
    refine ⟨.sizing block buf, fd, lists, rfl, ⟨?_, kept.placed⟩⟩
    exact kept.books.restale fun _ old => old.elim
  | some place =>
    obtain ⟨sc, page⟩ := place
    have keptDevice : Kept c Fresh { fd with device := (h.verify fd sc page buf).2 } lists :=
      ⟨kept.books.setDevice _, kept.placed⟩
    by_cases same : (h.verify fd sc page buf).1 = 0
    · exact ⟨.done 0, _, lists, if_pos same, keptDevice⟩
    · obtain ⟨disk, after, flagged, keptAfter⟩ := flagUsed_spec careful keptDevice found
      refine ⟨.foreground block buf, disk, after, ?_, keptAfter⟩
      refine (if_neg same).trans ?_
      rw [flagged]
      rfl

/-- The write goes on and keeps the books. -/
theorem advance_spec (careful : Careful c h) {stage : Stage blockSize}
    (underway : Underway c lists stage fd) (ready : Provided c stage fd) :
    ∃ next disk after, advance c h stage fd = some (next, disk) ∧ Underway c after next disk := by
  cases stage with
  | foreground block buf =>
    obtain ⟨disk, after, res, keptAfter⟩ := compactIf_spec careful underway
      (!c.backgroundCompact) fun wanted => ready (by simpa using wanted)
    exact ⟨.sizing block buf, disk, after, by rw [advance, res]; rfl, keptAfter⟩
  | sizing block buf =>
    obtain ⟨count, counted⟩ := countQueue_some underway.books.holds .available
    obtain ⟨disk, after, res, keptAfter⟩ :=
      compactIf_spec careful underway (count ≤ c.availCompactSegs)
        fun few => ready ⟨count, counted, of_decide_eq_true few⟩
    refine ⟨.claiming block buf, disk, after, ?_, keptAfter⟩
    rw [advance, counted]
    simp only [Option.bind_eq_bind, Option.bind_some, res]
    rfl
  | claiming block buf =>
    cases first : lists .available with
    | nil =>
      refine ⟨.full block buf, fd, lists, ?_, ?_, underway.placed⟩
      · rw [advance, underway.books.popHead_nil first]
      · apply underway.books.restale
        intro b old there
        rw [old] at there
        obtain ⟨sc, head, -⟩ := ready there
        rw [reaches_head (underway.books.holds.linked .available), first] at head
        cases head
    | cons sc others =>
      have roomy : (∀ b, b = block → fd.blocks b = none) ∨ 0 < (fd.segments sc).countErased := by
        by_cases unmapped : fd.blocks block = none
        · exact Or.inl fun b same => same ▸ unmapped
        · obtain ⟨found, head, room⟩ := ready unmapped
          rw [reaches_head (underway.books.holds.linked .available), first] at head
          exact Or.inr (Option.some.inj head ▸ room)
      obtain ⟨queues, next, disk, after, popped, res, keptAfter, which⟩ :=
        storeBlock_spec block buf careful underway (fun _ same => same) first roomy
      refine ⟨next, disk, after, ?_, ?_⟩
      · rw [advance, popped]
        exact res
      · rcases which with rfl | rfl
        · exact keptAfter
        · exact keptAfter
  | full block buf =>
    obtain ⟨disk, after, res, keptAfter⟩ := compactIf_spec careful underway
      c.backgroundCompact ready
    rw [advance, res]
    simp only [Option.bind_eq_bind, Option.bind_some]
    cases first : after .available with
    | nil =>
      rw [keptAfter.books.popHead_nil first]
      exact ⟨.done enospc, disk, after, rfl, keptAfter⟩
    | cons sc others =>
      obtain ⟨queues, next, last, latest, popped, stored, keptLast, which⟩ :=
        storeBlock_spec block buf careful keptAfter
          (fun _ old => old.elim) first (Or.inl fun _ old => old.elim)
      rw [popped]
      refine ⟨next, last, latest, stored, ?_⟩
      rcases which with rfl | rfl
      · exact keptLast
      · exact keptLast
  | stored ret =>
    obtain ⟨disk, after, res, keptAfter⟩ :=
      compactIf_spec careful underway (isErasedBlocksStarvation c fd) fun _ => ready
    exact ⟨.done ret, disk, after, by rw [advance, res]; rfl, keptAfter⟩
  | done ret => exact ⟨.done ret, fd, lists, rfl, underway⟩

end Stages

end Rtems.Block.FlashDisk
