import Rtems.Block.FlashRecycle

/-!
# Compaction of the flash disk

A compaction takes sources from the queues and recycles them, one after the other. A starvation is
resolved in the same way, with room for the pages of the source as a condition.
-/

namespace Rtems.Block.FlashDisk

open LinkedQueues
open Function (update update_of_ne update_self)
open Option (bind_eq_bind bind_some)

variable {n blockSize : Nat} {δ : Type} {c : Config n blockSize} {h : Handlers n blockSize δ}
  {fd disk last : Flashdisk n δ} {lists after latest : QueueName → List (Fin n)} {ssc dsc : Fin n}
  {pages ret rest : Nat} {stale : BitVec 32 → Prop}

/-- The books of all the segments are in order, and every segment is on a queue. -/
structure Kept (c : Config n blockSize) (stale : BitVec 32 → Prop) (fd : Flashdisk n δ) (lists : QueueName → List (Fin n)) :
    Prop where
  books : Books c stale fd lists ∅ 0
  placed : ∀ s, Placed lists s

/-- A segment that was taken from its queue is about to be recycled. -/
theorem Books.moving (books : Books c stale fd lists ∅ 0) (free : ∀ name, ssc ∉ lists name) :
    Moving c stale fd lists ssc (fd.segments ssc).pageDescriptors 0 := by
  have seen : ssc ∉ (∅ : Finset (Fin n)) := by simp
  have counted := books.counted ssc seen
  have hidden := books.hide seen (free .erase) (free .failed)
  rw [Nat.zero_add, insert_empty_eq] at hidden
  refine { counted with
    books := hidden, free, descriptors := ?descriptors, length := books.pages ssc seen
    sound := ?sound, behind := fun _ _ _ => Or.inr (Nat.zero_le _) }
  case descriptors => rfl
  case sound =>
    rw [Bool.eq_false_iff, ne_eq, books.failing ssc seen]
    exact free .failed

/-- The recyclings of a compaction: segments are taken off their queues before each. -/
inductive Worked (c : Config n blockSize) (stale : BitVec 32 → Prop)
    (h : Handlers n blockSize δ) : Flashdisk n δ → (QueueName → List (Fin n)) → Nat → Flashdisk n δ →
      (QueueName → List (Fin n)) → Prop where
  | rest (fd : Flashdisk n δ) (lists : QueueName → List (Fin n)) (ret : Nat) :
      Worked c stale h fd lists ret fd lists
  | recycle {fd disk last : Flashdisk n δ} {lists taken after latest : QueueName → List (Fin n)}
      {queues : Queues QueueName (Fin n)} {ssc dsc : Fin n} {pages rest ret : Nat}
      (detached : ∀ name, (taken name).Sublist (lists name))
      (run : Recycling c stale h ssc (fd.segments ssc).pageDescriptors 0 { fd with queues := queues } taken
        dsc pages 0 rest disk after)
      (others : Worked c stale h disk after ret last latest) : Worked c stale h fd lists ret last latest
  | abort {fd disk : Flashdisk n δ} {lists taken after : QueueName → List (Fin n)}
      {queues : Queues QueueName (Fin n)} {ssc dsc : Fin n} {pages rest ret : Nat}
      (detached : ∀ name, (taken name).Sublist (lists name))
      (run : Recycling c stale h ssc (fd.segments ssc).pageDescriptors 0 { fd with queues := queues } taken
        dsc pages ret rest disk after) (bad : ret ≠ 0) : Worked c stale h fd lists ret disk after

/-- One compaction after the other. -/
theorem Worked.trans {next : Nat} (first : Worked c stale h fd lists ret disk after) (fine : ret = 0)
    (second : Worked c stale h disk after next last latest) : Worked c stale h fd lists next last latest := by
  induction first with
  | rest => exact second
  | recycle detached run others ih =>
    exact .recycle detached run (ih fine second)
  | abort detached run bad => exact absurd fine bad

/-- The number of active pages of segments. -/
def activePages (fd : Flashdisk n δ) (segments : List (Fin n)) : Nat :=
  (segments.map fun s => (fd.segments s).pagesActive).sum

variable {fuel : Nat}

section Fitting

theorem activePages_le (books : Books c stale fd lists ∅ 0) {segments : List (Fin n)}
    (nodup : segments.Nodup) : activePages fd segments < 2 ^ 32 := by
  calc activePages fd segments
      = ∑ s ∈ segments.toFinset, (fd.segments s).pagesActive := (List.sum_toFinset _ nodup).symm
    _ ≤ ∑ s ∈ segments.toFinset, c.pages s := by
        apply Finset.sum_le_sum
        intro s _
        have seen : s ∉ (∅ : Finset (Fin n)) := by simp
        rw [(books.counted s seen).active, ← books.pages s seen]
        exact List.countP_le_length
    _ ≤ c.blockCount := Finset.sum_le_sum_of_subset (Finset.subset_univ _)
    _ < 2 ^ 32 := c.fits

/-- The used segments that fit are a front part of the queue. -/
theorem fittingFrom_spec {place : Option (Fin n)} {nodes : List (Fin n)} {dst compacted segs : Nat}
    (walk : Reaches fd.queues.next place nodes none) (enough : nodes.length ≤ fuel)
    (small : pages + activePages fd nodes < 2 ^ 32) :
    ∃ front back count, nodes = front ++ back ∧
      fittingFrom c fd dst compacted fuel place pages segs =
        some (back.head?, pages + activePages fd front, count) ∧
      (front ≠ [] → pages + activePages fd front < dst) := by
  induction nodes generalizing place fuel pages segs with
  | nil =>
    refine ⟨[], [], segs, rfl, ?_, fun none => absurd rfl none⟩
    rw [show place = none from walk]
    cases fuel <;> rfl
  | cons node nodes ih =>
    obtain ⟨rfl, onward⟩ := walk
    obtain ⟨fuel, rfl⟩ : ∃ less, fuel = less + 1 := ⟨fuel - 1, by simp at enough; omega⟩
    have split : activePages fd (node :: nodes) =
        (fd.segments node).pagesActive + activePages fd nodes := by
      simp [activePages]
    have word : (pages + (fd.segments node).pagesActive) % 2 ^ 32 =
        pages + (fd.segments node).pagesActive := Nat.mod_eq_of_lt (by omega)
    rw [fittingFrom, word]
    split
    · rename_i fits
      obtain ⟨front, back, count, parts, result, bound⟩ : ∃ front back count, nodes = front ++ back ∧
          fittingFrom c fd dst compacted fuel (fd.queues.next node)
              (pages + (fd.segments node).pagesActive) (increment segs) =
            some (back.head?, pages + (fd.segments node).pagesActive + activePages fd front, count) ∧
          (front ≠ [] → pages + (fd.segments node).pagesActive + activePages fd front < dst) :=
        ih onward (by simpa using enough) (by omega)
      have sum : activePages fd (node :: front) =
          (fd.segments node).pagesActive + activePages fd front := by
        simp [activePages]
      refine ⟨node :: front, back, count, by rw [parts]; rfl, ?_, fun _ => ?_⟩
      · rw [result, sum, Nat.add_assoc]
      · by_cases alone : front = []
        · rw [sum, alone]
          simpa [activePages] using fits.1
        · rw [sum, ← Nat.add_assoc]
          exact bound alone
    · exact ⟨[], node :: nodes, segs, rfl, by simp [activePages], fun none => absurd rfl none⟩

end Fitting

/-- A destination in hand or on the available queue that is larger than needed. -/
theorem room_of_larger (apart : dsc ≠ ssc)
    (place : dsc ∈ lists .available ∨ ∀ name, dsc ∉ lists name)
    (larger : (fd.segments ssc).countActive < (fd.segments dsc).countErased) :
    Room fd lists ssc dsc (fd.segments ssc).pageDescriptors 0 := by
  have pool : (fd.segments dsc).countErased ≤ poolPages fd lists dsc := Nat.le_add_left _ _
  rw [SegmentCtl.countActive] at larger
  constructor
  case apart => exact apart
  case place => exact place
  case ready =>
    omega
  case fits =>
    rw [List.drop_zero]
    omega
  case tight =>
    intro equal
    rw [List.drop_zero] at equal
    omega

theorem sublist_update {name : QueueName} {part : List (Fin n)} (sub : part.Sublist (lists name))
    (other : QueueName) : (update lists name part other).Sublist (lists other) := by
  by_cases here : other = name
  · subst here
    rw [update_self]
    exact sub
  · rw [update_of_ne here]

/-- Before the first recycling the destination is in hand; after it, it is available. -/
structure Ready (fd base : Flashdisk n δ) (lists before : QueueName → List (Fin n)) (dsc : Fin n)
    (pages : Nat) : Prop where
  same : ∃ queues, fd = { base with queues := queues }
  detached : ∀ name, (lists name).Sublist (before name)
  place : (∀ name, dsc ∉ lists name) ∧ 0 < pages ∨
    dsc ∈ lists .available ∧ base = fd ∧ before = lists

variable {base : Flashdisk n δ} {before : QueueName → List (Fin n)}

/-- A destination is not on the used queue. -/
theorem Ready.notUsed (ready : Ready fd base lists before dsc pages) (holds : Holds fd.queues lists) :
    dsc ∉ lists .used := by
  rcases ready.place with ⟨free, -⟩ | ⟨mem, -, -⟩
  · exact free .used
  · intro other
    cases holds.disjoint _ _ _ mem other

/-- The first of the used segments is recycled into the destination. -/
theorem recycle_used (careful : Careful c h)
    {others : List (Fin n)} (books : Books c stale fd lists ∅ 0)
    (ready : Ready fd base lists before dsc pages) (first : lists .used = ssc :: others)
    (larger : (fd.segments ssc).countActive < (fd.segments dsc).countErased) :
    ∃ queues ret rest disk after, fd.popHead .used = (some ssc, { base with queues := queues }) ∧
      recycleSegment c h { base with queues := queues } ssc dsc pages = some (ret, rest, disk) ∧
      Recycling c stale h ssc (base.segments ssc).pageDescriptors 0 { base with queues := queues }
        (update lists .used others) dsc pages ret rest disk after := by
  obtain ⟨queues, popped, taken, free⟩ := books.popHead first (by decide)
  have apart : dsc ≠ ssc := by
    rintro rfl
    exact ready.notUsed books.holds (first ▸ List.mem_cons_self)
  have place : dsc ∈ update lists .used others .available ∨
      ∀ name, dsc ∉ update lists .used others name := by
    rcases ready.place with ⟨free, -⟩ | ⟨mem, -, -⟩
    · refine Or.inr fun name mem => free name ?_
      refine (sublist_update ?_ name).subset mem
      rw [first]
      exact List.sublist_cons_self ssc others
    · exact Or.inl mem
  obtain ⟨ret, rest, disk, after, result, run⟩ : ∃ ret rest disk after,
      recycleFrom c h ssc (fd.segments ssc).pages 0 { fd with queues := queues } dsc pages =
        some (ret, rest, disk) ∧
      Recycling c stale h ssc (fd.segments ssc).pageDescriptors 0 { fd with queues := queues }
        (update lists .used others) dsc pages ret rest disk after :=
    recycleFrom_recycling careful (taken.moving free) (room_of_larger apart place larger)
      (Nat.zero_add _)
  obtain ⟨old, rfl⟩ := ready.same
  exact ⟨queues, ret, rest, disk, after, popped, result, run⟩

variable {front back : List (Fin n)}

/-- The counted segments are recycled into the destination. -/
theorem compactInto_spec (careful : Careful c h) (books : Books c stale fd lists ∅ 0)
    (placed : ∀ s, s ≠ dsc → Placed lists s) (ready : Ready fd base lists before dsc pages)
    (split : lists .used = front ++ back) (counted : activePages fd front = pages)
    (larger : pages < (fd.segments dsc).countErased) (enough : front.length ≤ fuel) :
    ∃ ret disk after, compactInto c h dsc fuel pages fd = some (ret, disk) ∧
      Worked c stale h base before ret disk after ∧ Kept c stale disk after ∧
      (ret = 0 → (after .used).length + (if pages = 0 then 0 else 1) ≤ (lists .used).length) := by
  induction front generalizing fd base lists before pages fuel with
  | nil =>
    obtain rfl : 0 = pages := counted
    rcases ready.place with ⟨-, none⟩ | ⟨mem, rfl, rfl⟩
    · cases none
    · refine ⟨0, base, before, by cases fuel <;> rfl, .rest base before 0, ⟨books, fun s => ?_⟩,
        fun _ => Nat.le_refl _⟩
      by_cases here : s = dsc
      · exact ⟨.available, here ▸ mem⟩
      · exact placed s here
  | cons ssc front ih =>
    have mem : ssc ∈ lists .used := by
      rw [split]
      exact List.mem_cons_self
    have own : (fd.segments ssc).pagesActive = (fd.segments ssc).countActive :=
      (books.counted ssc (by simp)).active
    have busy := books.busy ssc mem (by simp)
    have sum : (fd.segments ssc).countActive + activePages fd front = pages := by
      rw [← counted, ← own]
      simp [activePages]
    obtain ⟨less, rfl⟩ : ∃ less, pages = less + 1 := ⟨pages - 1, by omega⟩
    obtain ⟨fuel, rfl⟩ : ∃ less, fuel = less + 1 := ⟨fuel - 1, by simp at enough; omega⟩
    obtain ⟨queues, ret, rest, disk, after, popped, result, run⟩ :=
      recycle_used careful books ready split (by omega)
    have detached : ∀ name, (update lists .used (front ++ back) name).Sublist (before name) :=
      fun name => (sublist_update (by rw [split]; exact List.sublist_cons_self ssc _) name).trans
        (ready.detached name)
    obtain ⟨booksAfter, source, places⟩ := run.books careful
    have old : ∀ s, s ≠ ssc → Placed lists s → Placed (update lists .used (front ++ back)) s := by
      rintro s differs ⟨name, there⟩
      refine ⟨name, ?_⟩
      cases name with
      | used =>
        rw [split] at there
        exact (List.mem_cons.mp there).resolve_left differs
      | available | erase | failed => exact there
    have segments : base.segments = fd.segments := by
      obtain ⟨_, rfl⟩ := ready.same
      rfl
    have kept : Kept c stale disk after := by
      refine ⟨booksAfter, fun s => ?_⟩
      by_cases isSource : s = ssc
      · exact isSource ▸ source
      by_cases isDestination : s = dsc
      · refine places s (Or.inr ⟨isDestination, ?_⟩)
        rw [segments]
        exact busy
      · exact places s (Or.inl (old s isSource (placed s isDestination)))
    rw [compactInto, popped]
    simp only [result, bind_eq_bind, bind_some]
    by_cases fine : ret = 0
    · subst fine
      have whole : ((base.segments ssc).pageDescriptors.drop 0).countP PageDesc.active =
          (fd.segments ssc).countActive := by
        rw [segments]
        rfl
      obtain ⟨spent, used, erased, there, same⟩ := run.roomy rfl
        (by rw [whole, segments]; omega) (by rw [whole]; omega)
      rw [whole] at spent erased there
      have available : dsc ∈ after .available := there (Or.inr busy)
      have nodup := books.holds.nodup .used
      rw [split, List.cons_append, List.nodup_cons] at nodup
      have unchanged : activePages disk front = activePages fd front := by
        rw [activePages, activePages]
        congr 1
        apply List.map_congr_left
        intro s inside
        have here : s ∈ lists .used := by
          rw [split]
          exact List.mem_cons_of_mem ssc (List.mem_append_left back inside)
        rw [same s, segments]
        · rintro rfl
          exact nodup.1 (List.mem_append_left back inside)
        · rintro rfl
          exact ready.notUsed books.holds here
      obtain ⟨ret, last, latest, next, worked, keptLast, shorter⟩ :
          ∃ ret last latest, compactInto c h dsc fuel rest disk = some (ret, last) ∧
            Worked c stale h disk after ret last latest ∧ Kept c stale last latest ∧
            (ret = 0 → (latest .used).length + (if rest = 0 then 0 else 1) ≤ (after .used).length) := by
        apply ih booksAfter fun s _ => kept.placed s
        · exact ⟨⟨disk.queues, rfl⟩, fun name => List.Sublist.refl _, Or.inr ⟨available, rfl, rfl⟩⟩
        · exact used
        · omega
        · rw [segments] at erased
          omega
        · simpa using enough
      rw [if_neg (by simp), next]
      refine ⟨ret, last, latest, rfl, .recycle detached run worked, keptLast, fun done => ?_⟩
      have length : (after .used).length = (front ++ back).length := congrArg List.length used
      have before : (lists .used).length = (front ++ back).length + 1 := congrArg List.length split
      rw [if_neg (by omega)]
      omega
    · rw [if_pos fine]
      exact ⟨ret, disk, after, rfl, .abort detached run fine, kept, fun wrong => absurd wrong fine⟩

/-- The used segments that fit are recycled into an available one. -/
theorem compactInto_used (careful : Careful c h) (kept : Kept c stale fd lists)
    (mem : dsc ∈ lists .available) (split : lists .used = front ++ back)
    (larger : activePages fd front < (fd.segments dsc).countErased)
    (going : activePages fd front ≠ 0) :
    ∃ queues ret disk after, fd.remove .available dsc = some { fd with queues := queues } ∧
      compactInto c h dsc n (activePages fd front) { fd with queues := queues } = some (ret, disk) ∧
      Worked c stale h fd lists ret disk after ∧ Kept c stale disk after ∧
      (ret = 0 → (after .used).length < (lists .used).length) := by
  obtain ⟨queues, removed, holds⟩ : ∃ queues, LinkedQueues.remove fd.queues n .available dsc =
      some queues ∧ Holds queues (update lists .available ((lists .available).erase dsc)) :=
    kept.books.holds.remove (length_le kept.books.holds .available)
  have nodup := kept.books.holds.nodup .available
  have books := kept.books.push holds (by decide) (by decide) fun wrong =>
    QueueName.noConfusion wrong
  have free : ∀ name, dsc ∉ update lists .available ((lists .available).erase dsc) name := by
    intro name there
    cases name with
    | available => exact (nodup.mem_erase_iff.mp there).1 rfl
    | used | erase | failed => cases kept.books.holds.disjoint _ _ _ mem there
  have placed : ∀ s, s ≠ dsc →
      Placed (update lists .available ((lists .available).erase dsc)) s := by
    intro s differs
    obtain ⟨name, there⟩ := kept.placed s
    refine ⟨name, ?_⟩
    cases name with
    | available => exact (List.mem_erase_of_ne differs).mpr there
    | used | erase | failed => exact there
  have ready : Ready { fd with queues := queues } fd
      (update lists .available ((lists .available).erase dsc)) lists dsc
      (activePages fd front) :=
    ⟨⟨queues, rfl⟩, fun name => sublist_update List.erase_sublist name,
      Or.inl ⟨free, Nat.pos_of_ne_zero going⟩⟩
  have enough : front.length ≤ n := by
    have all := length_le kept.books.holds .used
    rw [split, List.length_append] at all
    omega
  obtain ⟨ret, disk, after, into, worked, keptAfter, shorter⟩ :=
    compactInto_spec careful books placed ready split rfl larger enough
  refine ⟨queues, ret, disk, after, by rw [Flashdisk.remove, removed]; rfl, into, worked, keptAfter,
    fun fine => ?_⟩
  have less := shorter fine
  rw [if_neg going] at less
  exact less

/-- The loop over the used segments keeps the books. -/
theorem compactUsed_spec (careful : Careful c h) {compacted : Nat} (kept : Kept c stale fd lists)
    (enough : (lists .used).length ≤ fuel) :
    ∃ ret disk after, compactUsed c h fuel compacted fd = some (ret, disk) ∧
      Worked c stale h fd lists ret disk after ∧ Kept c stale disk after := by
  induction fuel generalizing fd lists compacted with
  | zero =>
    have nothing : lists .used = [] := List.length_eq_zero_iff.mp (Nat.le_zero.mp enough)
    have head : (fd.queues.queue .used).head = none := by
      rw [reaches_head (kept.books.holds.linked .used), nothing]
      rfl
    rw [compactUsed.eq_def]
    simp only [head]
    exact ⟨0, fd, lists, rfl, .rest fd lists 0, kept⟩
  | succ fuel ih =>
    cases first : (fd.queues.queue .used).head with
    | none =>
      rw [compactUsed.eq_def]
      simp only [first]
      exact ⟨0, fd, lists, rfl, .rest fd lists 0, kept⟩
    | some ssc =>
      have walk := kept.books.holds.linked .used
      rw [first] at walk
      rw [compactUsed.eq_def]
      simp only [first]
      by_cases nothing : lists .available = []
      · simp only [mostAvailable_nil fd kept.books.holds nothing]
        exact ⟨eio, fd, lists, rfl, .rest fd lists eio, kept⟩
      · obtain ⟨dsc, mem, most, -⟩ := mostAvailable_some fd kept.books.holds nothing
        have small := activePages_le kept.books (kept.books.holds.nodup .used)
        obtain ⟨front, back, count, split, fitting, bound⟩ :
            ∃ front back count, lists .used = front ++ back ∧
              fittingFrom c fd (fd.segments dsc).pagesAvailable compacted n (some ssc) 0 0 =
                some (back.head?, 0 + activePages fd front, count) ∧
              (front ≠ [] → 0 + activePages fd front < (fd.segments dsc).pagesAvailable) :=
          fittingFrom_spec walk (length_le kept.books.holds .used) (by omega)
        rw [Nat.zero_add] at fitting bound
        simp only [most, fitting, bind_eq_bind, bind_some]
        split
        · exact ⟨0, fd, lists, rfl, .rest fd lists 0, kept⟩
        · rename_i going
          rw [not_or, not_or] at going
          have something : front ≠ [] := by
            rintro rfl
            exact going.2.1 rfl
          obtain ⟨queues, ret, disk, after, removed, into, worked, keptAfter, shorter⟩ :=
            compactInto_used careful kept mem split
              (by rw [← kept.books.pagesAvailable (by simp)]; exact bound something) going.2.1
          simp only [removed, into, bind_some]
          by_cases fine : ret = 0
          · rw [if_neg (not_not.mpr fine)]
            obtain ⟨next, last, latest, result, others, keptLast⟩ :
                ∃ next last latest, compactUsed c h fuel ((compacted + count) % 2 ^ 32) disk =
                  some (next, last) ∧ Worked c stale h disk after next last latest ∧ Kept c stale last latest :=
              ih keptAfter (by have := shorter fine; omega)
            exact ⟨next, last, latest, result, worked.trans fine others, keptLast⟩
          · rw [if_pos fine]
            exact ⟨ret, disk, after, rfl, worked, keptAfter⟩

/-- The erased pages of the available segments but one. -/
def otherPages (fd : Flashdisk n δ) (lists : QueueName → List (Fin n)) (ssc : Fin n) : Nat :=
  (((lists .available).erase ssc).map fun s => (fd.segments s).countErased).sum

/-- The segment that a starvation would recycle has a destination, and its active pages have
room. -/
def Fits (fd : Flashdisk n δ) (lists : QueueName → List (Fin n)) : Prop :=
  ∀ ssc, (lists .used ++ lists .available).head? = some ssc →
    (lists .available).erase ssc ≠ [] ∧
    (fd.segments ssc).countActive ≤ otherPages fd lists ssc ∧
    ((fd.segments ssc).countActive = otherPages fd lists ssc →
      Ends (fd.segments ssc).pageDescriptors 0)

/-- The source is taken from its queue. -/
theorem popSource_some (kept : Kept c stale fd lists)
    (first : (lists .used ++ lists .available).head? = some ssc) :
    ∃ queues taken, fd.popSource = (some ssc, { fd with queues := queues }) ∧
      Books c stale { fd with queues := queues } taken ∅ 0 ∧ (∀ name, ssc ∉ taken name) ∧
      (∀ name, (taken name).Sublist (lists name)) ∧
      taken .available = (lists .available).erase ssc ∧ ∀ s, s ≠ ssc → Placed taken s := by
  have keep : ∀ name others, lists name = ssc :: others → ∀ s, s ≠ ssc →
      Placed (update lists name others) s := by
    intro name others split s differs
    obtain ⟨other, mem⟩ := kept.placed s
    by_cases here : other = name
    · subst here
      rw [split] at mem
      refine ⟨other, ?_⟩
      rw [update_self]
      exact (List.mem_cons.mp mem).resolve_left differs
    · exact ⟨other, by rwa [update_of_ne here]⟩
  cases used : lists .used with
  | cons head others =>
    obtain rfl : head = ssc := by simpa [used] using first
    obtain ⟨queues, popped, books, free⟩ := kept.books.popHead used (by decide)
    have absent : head ∉ lists .available := by
      intro mem
      cases kept.books.holds.disjoint _ _ _ mem (used ▸ List.mem_cons_self : head ∈ lists .used)
    refine ⟨queues, _, ?_, books, free, sublist_update ?_, ?_, keep .used others used⟩
    · rw [Flashdisk.popSource, popped]
    · rw [used]
      exact List.sublist_cons_self head others
    · rw [List.erase_of_not_mem absent]
      rfl
  | nil =>
    rw [used, List.nil_append] at first
    obtain ⟨others, split⟩ := List.head?_eq_some_iff.mp first
    obtain ⟨queues, popped, books, free⟩ := kept.books.popHead split (by decide)
    refine ⟨queues, _, ?_, books, free, sublist_update ?_, ?_, keep .available others split⟩
    · rw [Flashdisk.popSource, kept.books.popHead_nil used]
      exact popped
    · rw [split]
      exact List.sublist_cons_self ssc others
    · rw [split, List.erase_cons_head]
      rfl

/-- With room for the pages of the source, a starvation is resolved and the books are kept. -/
theorem resolveStarvation_spec (careful : Careful c h) (kept : Kept c stale fd lists)
    (fits : Fits fd lists) :
    ∃ ret disk after, resolveStarvation c h fd = some (ret, disk) ∧
      Worked c stale h fd lists ret disk after ∧ Kept c stale disk after := by
  cases first : (lists .used ++ lists .available).head? with
  | none =>
    rw [List.head?_eq_none_iff, List.append_eq_nil_iff] at first
    have popped : fd.popSource = (none, fd) := by
      rw [Flashdisk.popSource, kept.books.popHead_nil first.1]
      exact kept.books.popHead_nil first.2
    rw [resolveStarvation, popped]
    exact ⟨eio, fd, lists, rfl, .rest fd lists eio, kept⟩
  | some ssc =>
    obtain ⟨something, few, tight⟩ := fits ssc first
    obtain ⟨queues, taken, popped, books, free, detached, available, placed⟩ :=
      popSource_some kept first
    have nonempty : taken .available ≠ [] := available ▸ something
    obtain ⟨dsc, mem, most, all⟩ :=
      mostAvailable_some { fd with queues := queues } books.holds nonempty
    have pool : poolPages { fd with queues := queues } taken dsc = otherPages fd lists ssc := by
      rw [poolPages, otherPages, ← available, Nat.add_comm]
      exact List.sum_map_erase (fun s => (fd.segments s).countErased) mem
    have moving := books.moving free
    have room : Room { fd with queues := queues } taken ssc dsc
        (fd.segments ssc).pageDescriptors 0 := by
      constructor
      case apart =>
        rintro rfl
        exact free .available mem
      case place => exact Or.inl mem
      case ready =>
        intro active
        refine ready_of_most moving.books (free .available) mem all ?_
        rw [pool]
        exact active.trans_le few
      case fits =>
        rw [pool]
        exact few
      case tight =>
        rw [pool]
        exact tight
    obtain ⟨ret, rest, disk, after, result, run⟩ : ∃ ret rest disk after,
        recycleFrom c h ssc (fd.segments ssc).pages 0 { fd with queues := queues } dsc 0 =
          some (ret, rest, disk) ∧
        Recycling c stale h ssc (fd.segments ssc).pageDescriptors 0 { fd with queues := queues } taken
          dsc 0 ret rest disk after :=
      recycleFrom_recycling careful moving room (Nat.zero_add _)
    obtain ⟨booksAfter, source, places⟩ := run.books careful
    have keptAfter : Kept c stale disk after := by
      refine ⟨booksAfter, fun s => ?_⟩
      by_cases here : s = ssc
      · exact here ▸ source
      · exact places s (Or.inl (placed s here))
    have resolved : resolveStarvation c h fd = some (ret, disk) := by
      rw [resolveStarvation, popped]
      simp only [most, bind_eq_bind, bind_some, recycleSegment, result]
      rfl
    refine ⟨ret, disk, after, resolved, ?_, keptAfter⟩
    by_cases fine : ret = 0
    · subst fine
      exact .recycle detached run (.rest disk after 0)
    · exact .abort detached run fine

/-- A compaction keeps the books if a starvation finds room. -/
theorem compact_spec (careful : Careful c h) (kept : Kept c stale fd lists)
    (fits : isErasedBlocksStarvation c fd = true → Fits fd lists) :
    ∃ ret disk after, compact c h fd = some (ret, disk) ∧
      Worked c stale h fd lists ret disk after ∧ Kept c stale disk after := by
  rw [compact]
  by_cases starving : isErasedBlocksStarvation c fd = true
  · obtain ⟨ret, disk, after, resolved, worked, keptAfter⟩ :=
      resolveStarvation_spec careful kept (fits starving)
    rw [if_pos starving, resolved]
    simp only [bind_eq_bind, bind_some]
    by_cases fine : ret = 0
    · rw [if_neg (not_not.mpr fine)]
      obtain ⟨next, last, latest, result, others, keptLast⟩ :
          ∃ next last latest, compactUsed c h n 0 disk = some (next, last) ∧
            Worked c stale h disk after next last latest ∧ Kept c stale last latest :=
        compactUsed_spec careful keptAfter (length_le keptAfter.books.holds .used)
      exact ⟨next, last, latest, result, worked.trans fine others, keptLast⟩
    · rw [if_pos fine]
      exact ⟨ret, disk, after, rfl, worked, keptAfter⟩
  · rw [if_neg starving]
    exact compactUsed_spec careful kept (length_le kept.books.holds .used)

end Rtems.Block.FlashDisk
