import Rtems.Block.FlashWrite

/-!
# Attaching the flash disk

The descriptors of all the segments are read and counted, and the blocks are mapped to the active
pages. The books are in order afterwards if no two active pages are of the same block.
-/

namespace Rtems.Block.FlashDisk

open LinkedQueues
open Function (update_of_ne update_self)

variable {n blockSize : Nat} {δ : Type}

/-- What the descriptors in the flash say about blocks: every active one is of a block of the disk,
and no two are of the same block. -/
structure Distinct (c : Config n blockSize) (table : Fin n → Nat → PageDesc) : Prop where
  inside : ∀ s page, page < c.pages s → (table s page).active = true →
    (table s page).block.toNat < c.blockCount
  once : ∀ s page other place, page < c.pages s → place < c.pages other →
    (table s page).active = true → (table other place).active = true →
    (table s page).block = (table other place).block → s = other ∧ page = place

/-- The descriptors are read from the table, and no write fails. -/
structure Attaching (table : Fin n → Nat → PageDesc) (h : Handlers n blockSize δ) : Prop where
  read : ∀ fd sc, (h.readDescriptors fd sc).2.1 = table sc
  write : ∀ fd sc program, (h.write fd sc program).1 = 0

variable {c : Config n blockSize} {h : Handlers n blockSize δ} {fd : Flashdisk n δ}
  {lists : QueueName → List (Fin n)} {sc : Fin n} {table : Fin n → Nat → PageDesc}
  {rest : Finset (Fin n)} {k : Nat}

/-- The pages of the segment before page `k` are examined. -/
structure Scanned (c : Config n blockSize) (table : Fin n → Nat → PageDesc) (fd : Flashdisk n δ)
    (lists : QueueName → List (Fin n)) (sc : Fin n) (rest : Finset (Fin n)) (k : Nat) : Prop where
  books : Books c Fresh fd lists (insert sc rest)
    (((fd.segments sc).pageDescriptors.take k).countP PageDesc.erased)
  length : (fd.segments sc).pages = c.pages sc
  sound : (fd.segments sc).failed = false
  active : (fd.segments sc).pagesActive =
    ((fd.segments sc).pageDescriptors.take k).countP PageDesc.active
  used : (fd.segments sc).pagesUsed = ((fd.segments sc).pageDescriptors.take k).countP PageDesc.used
  bad : (fd.segments sc).pagesBad = ((fd.segments sc).pageDescriptors.take k).countP PageDesc.bad
  ahead : ∀ page, k ≤ page → page < c.pages sc →
    (fd.segments sc).pageDescriptors[page]? = some (table sc page)
  known : ∀ block s page, fd.blocks block = some (s, page) →
    (s ∉ rest ∧ s ≠ sc ∨ s = sc ∧ page < k) ∧ page < c.pages s ∧
      (table s page).active = true ∧ (table s page).block = block

/-- What the examination of page `k` changes: the descriptor may be flagged, and it is counted. -/
structure Examined (fd after : Flashdisk n δ) (sc : Fin n) (k : Nat) (pd : PageDesc) : Prop where
  queues : after.queues = fd.queues
  same : ∀ s, s ≠ sc → after.segments s = fd.segments s
  descriptors : (after.segments sc).pageDescriptors = (fd.segments sc).pageDescriptors.set k pd
  failed : (after.segments sc).failed = (fd.segments sc).failed
  erased : after.erasedBlocks = if pd.erased then increment fd.erasedBlocks else fd.erasedBlocks
  active : (after.segments sc).pagesActive =
    if pd.active then increment (fd.segments sc).pagesActive else (fd.segments sc).pagesActive
  used : (after.segments sc).pagesUsed =
    if pd.used then increment (fd.segments sc).pagesUsed else (fd.segments sc).pagesUsed
  bad : (after.segments sc).pagesBad =
    if pd.bad then increment (fd.segments sc).pagesBad else (fd.segments sc).pagesBad
  blocks : after.blocks =
    if pd.active then Function.update fd.blocks pd.block (some (sc, k)) else fd.blocks

theorem segWritePageDesc_device (attaching : Attaching table h) (fd : Flashdisk n δ) (sc : Fin n)
    (page : Nat) (pd : PageDesc) :
    ∃ dev, (segWritePageDesc c h fd sc page pd).2 = { fd with device := dev } := by
  have written : ∀ fd program, ∃ dev, (segWrite h fd sc program).2 = { fd with device := dev } := by
    intro fd program
    have ok := attaching.write fd sc program
    rw [segWrite]
    generalize h.write fd sc program = answer at ok ⊢
    obtain ⟨ret, dev⟩ := answer
    dsimp only at ok ⊢
    rw [if_pos ok]
    exact ⟨dev, rfl⟩
  rw [segWritePageDesc, blankCheck]
  by_cases checks : c.blankCheckBeforeWrite = true
  · rw [if_pos checks]
    generalize h.blank fd sc (.descriptor page) = answer
    obtain ⟨ret, dev⟩ := answer
    dsimp only
    split
    · obtain ⟨last, res⟩ := written { fd with device := dev } (.descriptor page pd)
      exact ⟨last, res⟩
    · exact ⟨dev, rfl⟩
  · rw [if_neg checks]
    exact written fd _

theorem recoverPage_examined (attaching : Attaching table h) {pd : PageDesc}
    (found : (fd.segments sc).pageDescriptors[k]? = some pd)
    (inside : pd.active = true → pd.block.toNat < c.blockCount)
    (unmapped : pd.active = true → fd.blocks pd.block = none) :
    ∃ seen, (seen = pd ∨ pd.erased = true ∧ seen.used = true) ∧
      Examined fd (recoverPage c h sc fd k) sc k seen := by
  have read : (fd.segments sc).pageDescriptors.getD k PageDesc.blank = pd := by
    rw [List.getD_eq_getElem?_getD, found]
    rfl
  have unchanged : (fd.segments sc).pageDescriptors.set k pd = (fd.segments sc).pageDescriptors := by
    obtain ⟨bound, rfl⟩ := List.getElem?_eq_some_iff.mp found
    exact List.set_getElem_self bound
  rw [recoverPage]
  dsimp only
  rw [read]
  cases erased : pd.erased with
  | true =>
    have notActive := PageDesc.not_active_of_erased erased
    have notUsed := PageDesc.not_used_of_erased erased
    have notBad : pd.bad = false := by simp [PageDesc.bad, erased]
    by_cases blank : (h.blank fd sc (.data k)).1 = 0
    · rw [if_pos blank]
      refine ⟨pd, Or.inl rfl, ?_⟩
      constructor <;> simp [erased, notActive, notUsed, notBad, unchanged]
    · have isUsed := PageDesc.used_setFlags pd
      have isActive := PageDesc.not_active_of_used isUsed
      have isErased := PageDesc.not_erased_of_used isUsed
      have isBad : (pd.setFlags pageUsed).bad = false := by simp [PageDesc.bad, isUsed]
      rw [if_neg blank]
      obtain ⟨last, written⟩ := segWritePageDesc_device (c := c) attaching
        (({ fd with device := (h.blank fd sc (.data k)).2 } : Flashdisk n δ).setSegment sc
          { fd.segments sc with
            pageDescriptors := (fd.segments sc).pageDescriptors.set k (pd.setFlags pageUsed) })
        sc k (pd.setFlags pageUsed)
      rw [written]
      refine ⟨pd.setFlags pageUsed, Or.inr ⟨rfl, isUsed⟩, ?_⟩
      constructor
      case same =>
        intro s ne
        simp [Flashdisk.setSegment, update_of_ne ne]
      all_goals simp [Flashdisk.setSegment, isUsed, isActive, isErased, isBad]
  | false =>
    refine ⟨pd, Or.inl rfl, ?_⟩
    by_cases used : pd.flagsSet pageUsed = true
    · have isUsed : pd.used = true := used
      have notActive := PageDesc.not_active_of_used isUsed
      have notBad : pd.bad = false := by simp [PageDesc.bad, isUsed]
      rw [if_pos used]
      constructor
      case same =>
        intro s ne
        simp [Flashdisk.setSegment, update_of_ne ne]
      all_goals simp [Flashdisk.setSegment, erased, isUsed, notActive, notBad, unchanged]
    · have notUsed : pd.used = false := by simpa [PageDesc.used] using used
      rw [if_neg used]
      by_cases active : pd.flagsSet pageActive = true
      · have isActive : pd.active = true := by simp [PageDesc.active, active, used]
        have notBad : pd.bad = false := by simp [PageDesc.bad, isActive]
        have fine : ¬(pd.block.toNat ≥ c.blockCount ∨ fd.blocks pd.block ≠ none) := by
          simp [inside isActive, unmapped isActive]
        rw [if_pos active, if_neg fine]
        constructor
        case same =>
          intro s ne
          simp [Flashdisk.setSegment, update_of_ne ne]
        all_goals simp [Flashdisk.setSegment, erased, isActive, notUsed, notBad, unchanged]
      · have notActive : pd.active = false := by simp [PageDesc.active, active]
        have isBad : pd.bad = true := by simp [PageDesc.bad, erased, notActive, notUsed]
        rw [if_neg active]
        constructor
        case same =>
          intro s ne
          simp [Flashdisk.setSegment, update_of_ne ne]
        all_goals simp [Flashdisk.setSegment, erased, notActive, notUsed, isBad, unchanged]

/-- The examination of a page goes into the books. -/
theorem Scanned.next (scanned : Scanned c table fd lists sc rest k) (distinct : Distinct c table)
    (attaching : Attaching table h) (fresh : sc ∉ rest) (inside : k < c.pages sc) :
    Scanned c table (recoverPage c h sc fd k) lists sc rest (k + 1) := by
  have found := scanned.ahead k (Nat.le_refl k) inside
  have bound : k < (fd.segments sc).pageDescriptors.length := (List.getElem?_eq_some_iff.mp found).1
  have unmapped : (table sc k).active = true → fd.blocks (table sc k).block = none := by
    intro active
    cases place : fd.blocks (table sc k).block with
    | none => rfl
    | some other =>
      obtain ⟨s, page⟩ := other
      obtain ⟨before, within, isActive, name⟩ := scanned.known _ s page place
      obtain ⟨rfl, rfl⟩ := distinct.once s page sc k within inside isActive active name
      rcases before with ⟨-, ne⟩ | ⟨-, less⟩
      · exact absurd rfl ne
      · exact absurd less (Nat.lt_irrefl page)
  obtain ⟨pd, which, examined⟩ := recoverPage_examined (c := c) (h := h) attaching found
    (distinct.inside sc k inside) unmapped
  generalize recoverPage c h sc fd k = after at examined
  have there : (after.segments sc).pageDescriptors[k]? = some pd := by
    rw [examined.descriptors]
    exact List.getElem?_set_self bound
  have before : (after.segments sc).pageDescriptors.take k =
      (fd.segments sc).pageDescriptors.take k := by
    rw [examined.descriptors, List.take_set_of_le (Nat.le_refl k)]
  have count : ∀ test : PageDesc → Bool,
      ((after.segments sc).pageDescriptors.take (k + 1)).countP test =
        ((fd.segments sc).pageDescriptors.take k).countP test + if test pd then 1 else 0 := by
    intro test
    rw [countP_take there, before]
  have size := c.pages_lt sc
  have short : ∀ test : PageDesc → Bool, ((fd.segments sc).pageDescriptors.take k).countP test ≤ k :=
    fun test => List.countP_le_length.trans (by simp)
  have pages : (after.segments sc).pages = c.pages sc := by
    rw [← scanned.length, SegmentCtl.pages, examined.descriptors, List.length_set]
    rfl
  have activeSame : pd.active = true → pd = table sc k := by
    intro active
    rcases which with same | ⟨-, used⟩
    · exact same
    · rw [PageDesc.not_active_of_used used] at active
      cases active
  have bump : ∀ (word : Nat) (test : PageDesc → Bool), word + 1 < 2 ^ 32 →
      (if test pd then increment word else word) = word + if test pd then 1 else 0 := by
    intro word test small
    split
    · exact increment_of_lt small
    · rfl
  have all := scanned.books
  have room : ((after.segments sc).pageDescriptors.take (k + 1)).countP PageDesc.erased ≤
      ∑ s ∈ insert sc rest, c.pages s := by
    rw [Finset.sum_insert fresh, ← pages]
    have few : ((after.segments sc).pageDescriptors.take (k + 1)).countP PageDesc.erased ≤
        (after.segments sc).pages :=
      (countP_take_le _ _ _).trans List.countP_le_length
    omega
  constructor
  case books =>
    apply all.modify
    case queues => exact examined.queues
    case same =>
      intro s outside
      apply examined.same s
      rintro rfl
      exact outside (Finset.mem_insert_self s rest)
    case total =>
      rw [examined.erased, count]
      split
      · rename_i erased
        have total := all.total
        have limit := (erasedPages_le all.pages room).trans_lt c.fits
        rw [count, if_pos erased] at limit
        rw [increment_of_lt (by omega)]
        omega
      · rfl
    case room => exact room
    case mapped =>
      intro block s page place
      refine Or.inr ?_
      rw [examined.blocks] at place
      by_cases same : pd.active = true ∧ block = pd.block
      · obtain ⟨active, rfl⟩ := same
        rw [if_pos active, update_self] at place
        obtain ⟨rfl, rfl⟩ : sc = s ∧ k = page := by simpa using place
        exact ⟨pd, there, active, rfl⟩
      · have old : fd.blocks block = some (s, page) := by
          split at place
          · rename_i active
            rwa [update_of_ne fun name => same ⟨active, name⟩] at place
          · exact place
        obtain ⟨other, held, active, name⟩ := (all.mapped block s page old).resolve_left id
        refine ⟨other, ?_, active, name⟩
        by_cases here : s = sc
        · subst here
          obtain ⟨position, -⟩ := scanned.known block s page old
          rw [examined.descriptors, List.getElem?_set_ne (by omega)]
          exact held
        · rw [examined.same s here]
          exact held
  case length => exact pages
  case sound => exact examined.failed.trans scanned.sound
  case active =>
    have few := short PageDesc.active
    rw [examined.active, scanned.active, count, bump _ PageDesc.active (by omega)]
  case used =>
    have few := short PageDesc.used
    rw [examined.used, scanned.used, count, bump _ PageDesc.used (by omega)]
  case bad =>
    have few := short PageDesc.bad
    rw [examined.bad, scanned.bad, count, bump _ PageDesc.bad (by omega)]
  case ahead =>
    intro page later within
    rw [examined.descriptors, List.getElem?_set_ne (by omega)]
    exact scanned.ahead page (by omega) within
  case known =>
    intro block s page place
    rw [examined.blocks] at place
    by_cases same : pd.active = true ∧ block = pd.block
    · obtain ⟨active, rfl⟩ := same
      rw [if_pos active, update_self] at place
      obtain ⟨rfl, rfl⟩ : sc = s ∧ k = page := by simpa using place
      have same := activeSame active
      rw [same] at active ⊢
      exact ⟨Or.inr ⟨rfl, Nat.lt_succ_self k⟩, inside, active, rfl⟩
    · have old : fd.blocks block = some (s, page) := by
        split at place
        · rename_i active
          rwa [update_of_ne fun name => same ⟨active, name⟩] at place
        · exact place
      obtain ⟨position, within, active, name⟩ := scanned.known block s page old
      refine ⟨position.imp id fun here => ⟨here.1, ?_⟩, within, active, name⟩
      exact here.2.trans (Nat.lt_succ_self k)

/-- The segments outside `rest` are on their queues, and the blocks of their active pages are
mapped. -/
structure Recovered (c : Config n blockSize) (table : Fin n → Nat → PageDesc) (fd : Flashdisk n δ)
    (lists : QueueName → List (Fin n)) (rest : Finset (Fin n)) : Prop where
  books : Books c Fresh fd lists rest 0
  placed : ∀ s ∉ rest, Placed lists s
  known : ∀ block s page, fd.blocks block = some (s, page) → s ∉ rest ∧ page < c.pages s ∧
    (table s page).active = true ∧ (table s page).block = block

variable {disk : Flashdisk n δ}

/-- A segment is examined and put on its queue. -/
theorem recoverSegment_spec (recovered : Recovered c table fd lists (insert sc rest))
    (distinct : Distinct c table) (attaching : Attaching table h) (fresh : sc ∉ rest) {ret : Nat}
    (res : recoverSegment c h fd sc = some (ret, disk)) :
    ret ≠ 0 ∨ ∃ after, Recovered c table disk after rest := by
  rw [recoverSegment] at res
  have read := attaching.read fd sc
  generalize h.readDescriptors fd sc = answer at read res
  obtain ⟨error, descriptors, dev⟩ := answer
  dsimp only at read res
  subst read
  by_cases bad : error ≠ 0
  · rw [if_pos bad] at res
    obtain ⟨rfl, -⟩ : error = ret ∧ _ := by simpa using res
    exact Or.inl bad
  rw [if_neg bad] at res
  generalize start : Flashdisk.setSegment { fd with device := dev } sc _ = first at res
  have self : first.segments sc =
      { pageDescriptors := (List.range (c.pages sc)).map (table sc)
        pagesActive := 0
        pagesUsed := 0
        pagesBad := 0
        failed := false } := by
    rw [← start]
    exact update_self sc _ fd.segments
  have scanned : Scanned c table first lists sc rest 0 := by
    constructor
    case books =>
      apply recovered.books.modify
      case queues =>
        rw [← start]
        rfl
      case same =>
        intro s outside
        rw [← start]
        have ne : s ≠ sc := by
          rintro rfl
          exact outside (Finset.mem_insert_self s rest)
        exact update_of_ne ne _ _
      case total =>
        rw [← start]
        rfl
      case room => simp
      case mapped =>
        intro block s page place
        have old : fd.blocks block = some (s, page) := by
          rw [← place, ← start]
          rfl
        have ne : s ≠ sc := by
          rintro rfl
          exact (recovered.known block s page old).1 (Finset.mem_insert_self s rest)
        have same : first.segments s = fd.segments s := by
          rw [← start]
          exact update_of_ne ne _ _
        rw [same]
        exact recovered.books.mapped block s page old
    case length =>
      rw [self]
      simp [SegmentCtl.pages]
    case sound => rw [self]
    case active =>
      rw [self]
      rfl
    case used =>
      rw [self]
      rfl
    case bad =>
      rw [self]
      rfl
    case ahead =>
      intro page _ within
      rw [self]
      simp [within]
    case known =>
      intro block s page place
      have old : fd.blocks block = some (s, page) := by
        rw [← place, ← start]
        rfl
      obtain ⟨outside, within, active, name⟩ := recovered.known block s page old
      refine ⟨Or.inl ⟨fun member => outside (Finset.mem_insert_of_mem member), ?_⟩, within, active, name⟩
      rintro rfl
      exact outside (Finset.mem_insert_self s rest)
  have loop : ∀ count, count ≤ c.pages sc →
      Scanned c table ((List.range count).foldl (recoverPage c h sc) first) lists sc rest count := by
    intro count
    induction count with
    | zero => exact fun _ => scanned
    | succ count ih =>
      intro enough
      rw [List.range_succ, List.foldl_append]
      exact (ih (by omega)).next distinct attaching fresh (by omega)
  have last := loop (c.pages sc) (Nat.le_refl _)
  generalize (List.range (c.pages sc)).foldl (recoverPage c h sc) first = full at last res
  have whole : (full.segments sc).pageDescriptors.take (c.pages sc) =
      (full.segments sc).pageDescriptors := by
    rw [← last.length]
    exact List.take_length
  have counted : (full.segments sc).Counted := by
    constructor
    case active => rw [last.active, whole, SegmentCtl.countActive]
    case used => rw [last.used, whole, SegmentCtl.countUsed]
    case bad => rw [last.bad, whole, SegmentCtl.countBad]
  have books := last.books
  rw [whole, ← Nat.zero_add (List.countP _ _)] at books
  obtain ⟨queued, after, done, booksAfter, placed, others, blocks⟩ :=
    Books.queueSegment (h := h) books fresh last.length counted last.sound (Nat.zero_le _)
  rw [done] at res
  obtain ⟨-, rfl⟩ : 0 = ret ∧ queued = disk := by simpa using res
  refine Or.inr ⟨after, booksAfter, ?_, ?_⟩
  · intro s outside
    by_cases here : s = sc
    · exact here ▸ placed
    · obtain ⟨name, member⟩ := recovered.placed s (by simp [here, outside])
      exact ⟨name, (others s here name).mpr member⟩
  · intro block s page place
    rw [blocks] at place
    obtain ⟨position, within, active, name⟩ := last.known block s page place
    refine ⟨?_, within, active, name⟩
    rcases position with ⟨outside, -⟩ | ⟨rfl, -⟩
    · exact outside
    · exact fresh

theorem recoverFrom_spec (distinct : Distinct c table) (attaching : Attaching table h)
    (segments : List (Fin n)) (nodup : segments.Nodup)
    (recovered : Recovered c table fd lists segments.toFinset)
    (res : recoverFrom c h segments fd = some (0, disk)) :
    ∃ after, Recovered c table disk after ∅ := by
  induction segments generalizing fd lists with
  | nil =>
    obtain rfl : fd = disk := by simpa [recoverFrom] using res
    exact ⟨lists, recovered⟩
  | cons sc rest ih =>
    obtain ⟨fresh, nodup⟩ := List.nodup_cons.mp nodup
    obtain ⟨⟨ret, next⟩, first, others⟩ := Option.bind_eq_some_iff.mp res
    dsimp only at others
    rw [List.toFinset_cons] at recovered
    rcases recoverSegment_spec recovered distinct attaching (by simpa using fresh) first with
      bad | ⟨after, recoveredNext⟩
    · rw [if_pos bad] at others
      obtain ⟨rfl, -⟩ : ret = 0 ∧ _ := by simpa using others
      exact absurd rfl bad
    · by_cases bad : ret ≠ 0
      · rw [if_pos bad] at others
        obtain ⟨rfl, -⟩ : ret = 0 ∧ _ := by simpa using others
        exact absurd rfl bad
      · rw [if_neg bad] at others
        exact ih nodup recoveredNext others

/-- Nothing is examined at first. -/
theorem blank_recovered : Recovered c table { fd with
      queues := { fd.queues with queue := fun _ => empty }
      blocks := fun _ => none
      erasedBlocks := 0 } (fun _ => []) Finset.univ := by
  constructor
  case placed => exact fun s outside => absurd (Finset.mem_univ s) outside
  case known =>
    intro block s page place
    cases place
  case books =>
    constructor
    case holds => constructor <;> simp [Reaches, empty]
    case total => simp [Flashdisk.erasedPages]
    case room => exact Nat.zero_le _
    case mapped =>
      intro block s page place
      cases place
    all_goals simp

/-- After `rtems_fdisk_recover_block_mappings` the books are in order. -/
theorem recoverBlockMappings_spec (distinct : Distinct c table) (attaching : Attaching table h)
    (res : recoverBlockMappings c h fd = some (0, disk)) : ∃ after, Kept c Fresh disk after := by
  have all : (List.finRange n).toFinset = Finset.univ := List.toFinset_finRange n
  obtain ⟨after, recovered⟩ : ∃ after, Recovered c table disk after ∅ := by
    have nothing : Recovered c table { fd with
          queues := { fd.queues with queue := fun _ => empty }
          blocks := fun _ => none
          erasedBlocks := 0 } (fun _ => []) (List.finRange n).toFinset := by
      rw [all]
      exact blank_recovered
    exact recoverFrom_spec distinct attaching (List.finRange n) (List.nodup_finRange n) nothing res
  exact ⟨after, recovered.books, fun s => recovered.placed s (by simp)⟩

end Rtems.Block.FlashDisk
