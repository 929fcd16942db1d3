import Rtems.Dosfs.DirViews

/-!
# The writes of directories

The search for free entries finds a run that is free in a directory whose end marks are at its end. A name is added to
such a run, which ends in the last block if a cluster was added.
-/

namespace Rtems.Dosfs.Tree

open Function (update update_of_ne update_self)

/-- A free entry. -/
def Entry.IsFree (entry : Entry) : Prop := entry = .empty ∨ entry = .last

section Search

variable {per need total : Nat} {entry : Nat → Entry}

/-- What the search knows at an index: a run that is long enough, or the run of empty entries in front of it. -/
structure Scanned (need : Nat) (entry : Nat → Entry) (i offset count : Nat) (found : Bool) : Prop where
  used : ∀ j < i, entry j ≠ .last
  run : found = true → need ≤ count ∧ offset + need ≤ i ∧ ∀ j, offset ≤ j → j < offset + need → entry j = .empty
  short : found = false → count < need ∧ count ≤ i ∧ (count ≠ 0 → offset = i - count) ∧
    ∀ j, i - count ≤ j → j < i → entry j = .empty

/-- A run of free entries without an end mark in front of it. -/
structure FreeRun (entry : Nat → Entry) (offset least most : Nat) : Prop where
  free : ∀ j, offset ≤ j → j < least → (entry j).IsFree
  inside : least ≤ most
  gapless : ∀ j < offset, entry j ≠ .last

/-- The result of the search: enough entries, or all that are left. -/
structure FoundFree (need total : Nat) (entry : Nat → Entry) (result : Nat × Nat) : Prop where
  enough : need ≤ result.2 → FreeRun entry result.1 (result.1 + need) total
  less : result.2 < need → result.2 ≤ total ∧ FreeRun entry (total - result.2) total total

theorem Scanned.findEmpty (tail : ∀ i j, i ≤ j → j < total → entry i = .last → entry j = .last)
    (block : ∀ i < total, entry i = .last → per - i % per = total - i) {left i off count : Nat} {found : Bool}
    (scanned : Scanned need entry i off count found) (whole : i + left = total) :
    FoundFree need total entry (findEmpty per need entry left i off count found) := by
  induction left generalizing i off count found with
  | zero =>
    obtain rfl : i = total := by omega
    rw [Tree.findEmpty]
    cases found with
    | true =>
      obtain ⟨enough, inside, free⟩ := scanned.run rfl
      exact ⟨fun _ => ⟨fun j least most => .inl (free j least most), inside,
        fun j before => scanned.used j (by omega)⟩, fun less => by omega⟩
    | false =>
      obtain ⟨less, inside, _, free⟩ := scanned.short rfl
      exact ⟨fun enough => absurd less (Nat.not_lt.mpr enough), fun _ => ⟨inside,
        fun j least most => .inl (free j least most), Nat.le_refl i, fun j before => scanned.used j (by omega)⟩⟩
  | succ left ih =>
    rw [Tree.findEmpty]
    have used : entry i ≠ .last → ∀ j < i + 1, entry j ≠ .last := by
      intro here j before
      rcases Nat.lt_or_ge j i with earlier | later
      · exact scanned.used j earlier
      · obtain rfl : j = i := by omega
        exact here
    -- an entry that is not free ends the run
    have passed : entry i ≠ .last → entry i ≠ .empty →
        FoundFree need total entry (if found = true then
          Tree.findEmpty per need entry left (i + 1) (if count = 0 then i else off) count true
          else Tree.findEmpty per need entry left (i + 1) 0 0 false) := by
      intro here taken
      cases found with
      | true =>
        obtain ⟨enough, inside, free⟩ := scanned.run rfl
        refine ih ⟨used here, fun _ => ?_, fun wrong => Bool.noConfusion wrong⟩ (by omega)
        by_cases none : count = 0
        · rw [if_pos none]
          exact ⟨enough, by omega, fun j least most => by omega⟩
        · rw [if_neg none]
          exact ⟨enough, by omega, free⟩
      | false =>
        obtain ⟨less, _⟩ := scanned.short rfl
        refine ih ⟨used here, fun wrong => Bool.noConfusion wrong, fun _ => ?_⟩ (by omega)
        exact ⟨by omega, Nat.zero_le _, fun some => absurd rfl some, fun j least most => by omega⟩
    cases here : entry i with
    | last =>
      dsimp only
      have rest := block i (by omega) here
      have free : ∀ j, i ≤ j → j < total → (entry j).IsFree := fun j later inside => .inr (tail i j later inside here)
      cases found with
      | true =>
        obtain ⟨enough, inside, run⟩ := scanned.run rfl
        rw [if_pos rfl]
        by_cases none : count = 0
        · rw [if_pos none]
          exact ⟨fun _ => ⟨fun j least most => free j least (by omega), by omega, scanned.used⟩, fun less => by omega⟩
        · rw [if_neg none]
          exact ⟨fun _ => ⟨fun j least most => .inl (run j least most), by omega,
            fun j before => scanned.used j (by omega)⟩, fun less => by omega⟩
      | false =>
        obtain ⟨less, inside, offset_eq, run⟩ := scanned.short rfl
        have start : (if count = 0 then i else off) = i - count := by
          by_cases none : count = 0
          · rw [if_pos none]
            omega
          · rw [if_neg none, offset_eq none]
        have all : ∀ j, i - count ≤ j → j < total → (entry j).IsFree := by
          intro j least most
          rcases Nat.lt_or_ge j i with earlier | later
          · exact .inl (run j least earlier)
          · exact free j later most
        rw [if_neg (by decide), start, rest]
        constructor
        · intro enough
          exact ⟨fun j least most => all j least (by omega), by omega, fun j before => scanned.used j (by omega)⟩
        · intro short
          exact ⟨by omega, fun j least most => all j (by omega) most, Nat.le_refl _,
            fun j before => scanned.used j (by omega)⟩
    | empty =>
      refine ih ⟨used (by rw [here]; decide), ?_, ?_⟩ (by omega)
      · intro enough
        cases found with
        | true =>
          obtain ⟨least, inside, run⟩ := scanned.run rfl
          by_cases none : count = 0
          · rw [if_pos none]
            exact ⟨by omega, by omega, fun j least most => by omega⟩
          · rw [if_neg none]
            exact ⟨by omega, by omega, run⟩
        | false =>
          obtain ⟨less, inside, offset_eq, run⟩ := scanned.short rfl
          have complete : count + 1 = need := of_decide_eq_true (by simpa using enough)
          have start : (if count = 0 then i else off) = i - count := by
            by_cases none : count = 0
            · rw [if_pos none]
              omega
            · rw [if_neg none, offset_eq none]
          rw [start]
          refine ⟨by omega, by omega, fun j least most => ?_⟩
          rcases Nat.lt_or_ge j i with earlier | later
          · exact run j least earlier
          · obtain rfl : j = i := by omega
            exact here
      · intro more
        obtain ⟨rfl, other⟩ := Bool.or_eq_false_iff.mp more
        obtain ⟨less, inside, offset_eq, run⟩ := scanned.short rfl
        have differs := of_decide_eq_false other
        refine ⟨by omega, by omega, fun _ => ?_, fun j least most => ?_⟩
        · by_cases none : count = 0
          · rw [if_pos none]
            omega
          · rw [if_neg none, offset_eq none]
            omega
        · rcases Nat.lt_or_ge j i with earlier | later
          · exact run j (by omega) earlier
          · obtain rfl : j = i := by omega
            exact here
    | long | short =>
      exact passed (fun last => Entry.noConfusion (here.symm.trans last))
        (fun empty => Entry.noConfusion (here.symm.trans empty))

end Search

/-- The entries of a block. -/
def perBlock (vol : Volume) (dir : Nat) : Nat := bts2rd vol (fdOf vol dir) / 32

/-- The end marks are at the end, and every block behind the first one is in use. -/
structure Shaped (vol : Volume) (tree : Listing) : Prop where
  beyond : ∀ dir i, tree.count dir ≤ i → tree.entry dir i = .last
  tail : ∀ dir i j, i ≤ j → tree.entry dir i = .last → tree.entry dir j = .last
  full : ∀ dir, tree.count dir ≤ perBlock vol dir ∨ tree.entry dir (tree.count dir - perBlock vol dir) ≠ .last

variable {vol : Volume} {disk : Disk} {dir i : Nat}

theorem perBlock_least (linear : Linear vol) (dir : Nat) : 16 ≤ perBlock vol dir := by
  obtain ⟨k, block, some⟩ := linear.block_entries dir
  rw [perBlock, block]
  omega

/-- A directory has whole blocks. -/
theorem size_eq (linear : Linear vol) :
    size vol disk (fdOf vol dir) = (clusters vol disk (fdOf vol dir)).length * perBlock vol dir := by
  obtain ⟨k, block, _⟩ := linear.block_entries dir
  rw [size, fileSize, perBlock, block, ← Nat.mul_assoc, Nat.mul_div_cancel _ (by decide),
    Nat.mul_div_cancel _ (by decide)]

theorem Shaped.last_block (linear : Linear vol) (shaped : Shaped vol (view vol disk))
    (inside : i < size vol disk (fdOf vol dir)) (here : entryAt vol disk (fdOf vol dir) i = .last) :
    perBlock vol dir - i % perBlock vol dir = size vol disk (fdOf vol dir) - i := by
  have whole := @size_eq vol disk dir linear
  rw [← view_entry inside] at here
  cases length : (clusters vol disk (fdOf vol dir)).length with
  | zero =>
    rw [length, Nat.zero_mul] at whole
    omega
  | succ blocks =>
    rw [length, Nat.succ_mul] at whole
    have behind : blocks * perBlock vol dir ≤ i := by
      rcases shaped.full dir with single | used
      · have fits : size vol disk (fdOf vol dir) ≤ perBlock vol dir := single
        omega
      · by_contra before
        refine used (shaped.tail dir i _ ?_ here)
        change i ≤ size vol disk (fdOf vol dir) - perBlock vol dir
        omega
    obtain ⟨rest, rfl⟩ : ∃ rest, i = rest + blocks * perBlock vol dir := ⟨i - blocks * perBlock vol dir, by omega⟩
    rw [Nat.add_mul_mod_self_right, Nat.mod_eq_of_lt (by omega)]
    omega

theorem Shaped.freeEntries (linear : Linear vol) (shaped : Shaped vol (view vol disk)) {need : Nat} (some : 0 < need) :
    FoundFree need (size vol disk (fdOf vol dir)) (entryAt vol disk (fdOf vol dir))
      (freeEntries vol disk (fdOf vol dir) need) := by
  refine @Scanned.findEmpty _ _ _ _ ?_ ?_ _ 0 0 0 false ?_ (Nat.zero_add _)
  · intro i j before inside here
    rw [← view_entry (by omega : i < size vol disk (fdOf vol dir))] at here
    rw [← view_entry inside]
    exact shaped.tail dir i j before here
  · intro i inside here
    exact shaped.last_block linear inside here
  · exact ⟨fun j before => by omega, fun wrong => Bool.noConfusion wrong,
      fun _ => ⟨some, Nat.le_refl 0, fun wrong => absurd rfl wrong, fun j least most => by omega⟩⟩

theorem link_self (disk : Disk) (dir cln : Nat) :
    (link vol disk dir cln).chain dir = disk.chain dir ++ [cln] := update_self _ _ _

variable {cln : Nat}

theorem link_other {other : Nat} (differs : other ≠ dir) : (link vol disk dir cln).chain other = disk.chain other :=
  update_of_ne differs _ _

/-- A cluster is added to the chain of a directory, or it is the first one. -/
theorem Chained.link (chained : Chained vol disk) (free : Free vol disk cln)
    (there : disk.chain dir ≠ [] ∨ dir = cln) : Chained vol (link vol disk dir cln) := by
  obtain ⟨least, most, unused⟩ := free
  have fresh : ∀ other, cln ∉ disk.chain other := by
    intro other member
    have some : disk.chain other ≠ [] := List.ne_nil_of_mem member
    have start := List.mem_of_head? (chained.head other some)
    exact unused other (chained.range other other start).2 member
  have unchained : disk.chain cln = [] := by
    by_contra some
    exact fresh cln (List.mem_of_head? (chained.head cln some))
  have members : ∀ other x, x ∈ (Tree.link vol disk dir cln).chain other →
      x ∈ disk.chain other ∨ other = dir ∧ x = cln := by
    intro other x member
    by_cases same : other = dir
    · subst same
      rw [link_self] at member
      exact (List.mem_append.mp member).imp_right fun here => ⟨rfl, List.mem_singleton.mp here⟩
    · rw [link_other same] at member
      exact .inl member
  constructor
  · intro other some
    by_cases same : other = dir
    · subst same
      rw [link_self]
      rcases there with long | rfl
      · rw [List.head?_append, chained.head other long]
        rfl
      · rw [unchained]
        rfl
    · rw [link_other same] at some ⊢
      exact chained.head other some
  · intro other x member
    rcases members other x member with old | ⟨_, rfl⟩
    · exact chained.range other x old
    · exact ⟨least, most⟩
  · intro first second x left right
    rcases members first x left with old | ⟨rfl, rfl⟩
    · rcases members second x right with old' | ⟨_, rfl⟩
      · exact chained.apart first second x old old'
      · exact absurd old (fresh first)
    · rcases members second x right with old' | ⟨same, _⟩
      · exact absurd old' (fresh second)
      · exact same.symm
  · intro other
    by_cases same : other = dir
    · subst same
      rw [link_self]
      exact List.nodup_append.mpr ⟨chained.nodup other, List.pairwise_singleton _ _, fun x left y right equal =>
        fresh other (List.mem_singleton.mp right ▸ equal ▸ left)⟩
    · rw [link_other same]
      exact chained.nodup other

/-- A cluster of zeros adds end marks to a directory. -/
theorem view_link (linear : Linear vol) (chained : Chained vol disk) (free : Free vol disk cln)
    (unfixed : ¬ (fdOf vol dir).fixed vol = true) :
    view vol (link vol disk dir cln) = { view vol disk with
      count := update (view vol disk).count dir (size vol disk (fdOf vol dir) + perBlock vol dir) } := by
  have chain : ∀ other, other ≠ dir → clusters vol (link vol disk dir cln) (fdOf vol other) =
      clusters vol disk (fdOf vol other) := by
    intro other differs
    have chain : (link vol disk dir cln).chain (fdOf vol other).cln = disk.chain (fdOf vol other).cln :=
      link_other differs
    rw [clusters, clusters, chain]
  have longer : clusters vol (link vol disk dir cln) (fdOf vol dir) = clusters vol disk (fdOf vol dir) ++ [cln] := by
    rw [clusters, clusters, if_neg unfixed, if_neg unfixed]
    exact link_self disk dir cln
  have count : ∀ other, size vol (link vol disk dir cln) (fdOf vol other) =
      update (view vol disk).count dir (size vol disk (fdOf vol dir) + perBlock vol dir) other := by
    intro other
    by_cases same : other = dir
    · subst same
      rw [update_self, size_eq linear, size_eq linear, longer, List.length_append, List.length_singleton,
        Nat.succ_mul]
    · rw [update_of_ne same, size, fileSize, chain other same]
      rfl
  obtain ⟨least, most, unused⟩ := free
  refine Listing.ext (funext count) (funext fun other => funext fun i => ?_)
  by_cases inside : i < size vol disk (fdOf vol other)
  · -- the place is as before, and not in the new cluster
    have index := cluster_index linear inside
    have same : place vol (link vol disk dir cln) (fdOf vol other) i = place vol disk (fdOf vol other) i := by
      by_cases here : other = dir
      · subst here
        rw [place, place, longer, List.getElem?_append_left index]
      · rw [place, place, chain other here]
    have within : i < size vol (link vol disk dir cln) (fdOf vol other) := by
      rw [count other]
      by_cases here : other = dir
      · subst here
        rw [update_self]
        omega
      · rw [update_of_ne here]
        exact inside
    rw [view_entry inside, view_entry within, entryAt, same]
    refine if_neg ?_
    rintro ⟨low, high⟩
    rw [linear.address_cluster least most] at low high
    obtain ⟨_, _, bound, _, there⟩ | ⟨cln', _, found, least', _, _, there⟩ := place_cases linear chained inside
    · have before := linear.root_before cln
      omega
    · have positive : 0 < vol.bpc := by omega
      have off := Nat.mod_lt (32 * i) positive
      obtain ⟨rfl, _⟩ := linear.base_injective least' least off (by omega) (show
        base vol cln' + 32 * i % vol.bpc = base vol cln + (base vol cln' + 32 * i % vol.bpc - base vol cln) by omega)
      have member := List.mem_of_getElem? found
      have start := List.mem_of_head? (chained.head other (List.ne_nil_of_mem member))
      exact unused other (chained.range other other start).2 member
  · rw [@view_beyond vol disk _ _ (Nat.not_lt.mp inside)]
    by_cases within : i < size vol (link vol disk dir cln) (fdOf vol other)
    · -- an entry of the new cluster
      rw [view_entry within]
      obtain rfl : other = dir := by
        by_contra differs
        rw [count other, update_of_ne differs] at within
        exact inside within
      have bytes := @size_mul vol disk linear other
      have bytes' := @size_mul vol (link vol disk other cln) linear other
      obtain ⟨_, block⟩ := @clusters_chain vol disk other unfixed
      rw [longer, List.length_append, List.length_singleton, Nat.succ_mul, block] at bytes'
      rw [block] at bytes
      have index : 32 * i / vol.bpc = (clusters vol disk (fdOf vol other)).length :=
        Nat.div_eq_of_lt_le (by omega) (by rw [Nat.add_mul, Nat.one_mul]; omega)
      have positive : 0 < vol.bpc := by omega
      have spot : place vol (link vol disk other cln) (fdOf vol other) i = ⟨cln, 32 * i % vol.bpc⟩ := by
        rw [place, longer, block, index, List.getElem?_append_right (Nat.le_refl _), Nat.sub_self]
        rfl
      rw [entryAt, spot, linear.address_cluster least most]
      refine if_pos ?_
      rw [linear.address_cluster least most]
      have off := Nat.mod_lt (32 * i) positive
      exact ⟨by omega, by omega⟩
    · exact view_beyond (Nat.not_lt.mp within)

end Rtems.Dosfs.Tree
