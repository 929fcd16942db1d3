import Rtems.Dosfs.DirWrites

/-!
# The changes of the directories

What each operation does to the sequences of entries: a name is added at free entries, a directory gets its first two
entries, the entries of a name become empty, and a removed directory has no entries.
-/

namespace Rtems.Dosfs.Tree

open Function (update update_of_ne update_self)

/-- A name is added to a directory at free entries, with a new block if they reach into it. -/
structure Added (vol : Volume) (before after : Listing) (dir offset : Nat) (units : List Nat) (entry : Entry) :
    Prop where
  count : ∀ other, other ≠ dir → after.count other = before.count other
  grown : after.count dir = before.count dir ∨
    after.count dir = before.count dir + perBlock vol dir ∧ offset ≤ before.count dir ∧
      before.count dir ≤ offset + units.length
  inside : offset + units.length < after.count dir
  free : ∀ i, offset ≤ i → i ≤ offset + units.length → (before.entry dir i).IsFree
  gapless : ∀ i < offset, before.entry dir i ≠ .last
  long : ∀ i, offset ≤ i → i < offset + units.length → ∃ unit ∈ units, after.entry dir i = .long unit
  short : after.entry dir (offset + units.length) = entry
  other : ∀ dir' i, ¬ (dir' = dir ∧ offset ≤ i ∧ i ≤ offset + units.length) →
    after.entry dir' i = before.entry dir' i

/-- Where a write to the root directory of FAT12 and FAT16 lands as it should: in the first piece of the size of a
cluster, or the directory has exactly two. -/
def Lands (vol : Volume) (fd : DirFd) (offset : Nat) : Prop :=
  fd.fixed vol = true → 32 * offset < vol.bpc ∨ vol.rdirSize = 2 * vol.bpc
deriving Decidable

variable {vol : Volume} {disk after : Disk} {before tree : Listing} {dir off : Nat}
  {units : List Nat} {entry : Entry}

/-- The entries of an added name are not end marks. -/
theorem Added.used (added : Added vol before tree dir off units entry) (some : entry ≠ .last) {i : Nat}
    (least : off ≤ i) (most : i ≤ off + units.length) : tree.entry dir i ≠ .last := by
  rcases Nat.lt_or_eq_of_le most with inner | rfl
  · obtain ⟨unit, _, here⟩ := added.long i least inner
    rw [here]
    exact Entry.noConfusion
  · rw [added.short]
    exact some

/-- An added name leaves no gap. -/
theorem Added.shaped (added : Added vol before tree dir off units entry) (shaped : Shaped vol before)
    (some : entry ≠ .last) : Shaped vol tree := by
  have count := added.grown
  constructor
  · intro dir' i beyond
    by_cases same : dir' = dir
    · subst same
      have inside := added.inside
      rw [added.other _ _ (by omega)]
      exact shaped.beyond dir' i (by omega)
    · rw [added.count dir' same] at beyond
      rw [added.other _ _ (fun inside => same inside.1)]
      exact shaped.beyond dir' i beyond
  · intro dir' i j order here
    by_cases inside : dir' = dir ∧ off ≤ i ∧ i ≤ off + units.length
    · obtain ⟨rfl, least, most⟩ := inside
      exact absurd here (added.used some least most)
    · rw [added.other _ _ inside] at here
      have outside : ¬ (dir' = dir ∧ off ≤ j ∧ j ≤ off + units.length) := by
        rintro ⟨rfl, least, most⟩
        exact added.gapless i (by omega) here
      rw [added.other _ _ outside]
      exact shaped.tail dir' i j order here
  · intro dir'
    by_cases same : dir' = dir
    · subst same
      rcases count with equal | ⟨larger, least, most⟩
      · rw [equal]
        rcases shaped.full dir' with single | used
        · exact .inl single
        · by_cases inside : off ≤ before.count dir' - perBlock vol dir' ∧
              before.count dir' - perBlock vol dir' ≤ off + units.length
          · exact .inr (added.used some inside.1 inside.2)
          · rw [added.other _ _ (fun wrong => inside wrong.2)]
            exact .inr used
      · rw [larger, Nat.add_sub_cancel]
        exact .inr (added.used some least most)
    · rw [added.count dir' same, added.other _ _ (fun inside => same inside.1)]
      exact shaped.full dir'

/-- A write to a directory puts the entries at their places. -/
theorem written_eq (linear : Linear vol) (chained : Chained vol disk) (lands : Lands vol (fdOf vol dir) off)
    {i : Nat} (least : off ≤ i) (inside : i < size vol disk (fdOf vol dir)) :
    written vol disk (fdOf vol dir) off i = address vol (place vol disk (fdOf vol dir) i) := by
  by_cases fixed : (fdOf vol dir).fixed vol = true
  · obtain ⟨same, type⟩ := fdOf_fixed.mp fixed
    have first : (fdOf vol dir).cln = 0 := same.trans (linear.rdirCl type)
    obtain ⟨_, _, bound, _, there⟩ | ⟨_, unfixed, _⟩ := place_cases linear chained inside
    · rw [written, if_pos fixed, there, first, Nat.zero_add]
      rcases Nat.lt_or_ge (32 * off) vol.bpc with before | behind
      · rw [Nat.div_eq_of_lt before, Nat.mod_eq_of_lt before, Linear.address_fixed type]
        omega
      · -- the second of two pieces is what the computed cluster number 1 stands for
        have two : vol.rdirSize = 2 * vol.bpc := by
          rcases lands fixed with before | two
          · omega
          · exact two
        have index : 32 * off / vol.bpc = 1 := Nat.div_eq_of_lt_le (by omega) (by omega)
        have rest : 32 * off % vol.bpc = 32 * off - vol.bpc := by
          have whole := Nat.div_add_mod (32 * off) vol.bpc
          rw [index, Nat.mul_one] at whole
          omega
        have sectors : vol.rdirSecs = 2 * vol.spc := by
          have bytes := linear.rdirSize
          rw [two, linear.bpc_eq, ← Nat.mul_assoc] at bytes
          exact (Nat.eq_of_mul_eq_mul_right linear.bps_pos bytes).symm
        have positive : 0 < vol.spc := by
          rw [linear.spc]
          exact Nat.two_pow_pos _
        have root := linear.root
        have data := linear.data
        have sector : clusterNumToSectorNum vol 1 = vol.rdirLoc + vol.spc := by
          have word : minus 1 rsrvdCln = 2 ^ 32 - 1 := by decide
          rw [clusterNumToSectorNum, if_neg (by omega), word, ← linear.spc]
          omega
        rw [index, rest, address, sector, Nat.add_mul, ← linear.bpc_eq]
        dsimp only
        omega
    · exact absurd fixed unfixed
  · exact if_neg fixed

theorem writeEntries_spec (linear : Linear vol) (chained : Chained vol disk) (lands : Lands vol (fdOf vol dir) off)
    {pos : Pos} (done : writeEntries vol disk (fdOf vol dir) off units entry = some (pos, after)) :
    off + units.length < size vol disk (fdOf vol dir) ∧
      pos = ⟨(place vol disk (fdOf vol dir) (off + units.length)).cln,
        (32 * (off + units.length)) &&& (bts2rd vol (fdOf vol dir) - 1)⟩ ∧
      after.chain = disk.chain ∧
      view vol after = (view vol disk).put dir off (units.map .long ++ [entry]) := by
  rw [writeEntries, getPos] at done
  by_cases inside : off + units.length < size vol disk (fdOf vol dir)
  · rw [if_pos inside] at done
    dsimp only at done
    split at done
    · cases done
    · split at done
      · cases done
      · cases done
        have length : (units.map Entry.long ++ [entry]).length = units.length + 1 := by simp
        refine ⟨inside, rfl, rfl, ?_⟩
        rw [← view_put linear chained (by omega), writeAll_congr disk.entries fun i least most =>
          written_eq linear chained lands least (by omega)]
  · rw [if_neg inside] at done
    cases done

theorem Chained.congr (chained : Chained vol disk) (same : after.chain = disk.chain) : Chained vol after :=
  ⟨same ▸ chained.head, same ▸ chained.range, same ▸ chained.apart, same ▸ chained.nodup⟩

/-- Where an entry is depends on the chains. -/
theorem place_congr (same : after.chain = disk.chain) (fd : DirFd) (i : Nat) :
    place vol after fd i = place vol disk fd i := by
  rw [place, place, clusters, clusters, same]

theorem clusters_ne_nil (opened : (view vol disk).count dir ≠ 0) : clusters vol disk (fdOf vol dir) ≠ [] := by
  intro none
  refine opened ?_
  change size vol disk (fdOf vol dir) = 0
  rw [size, fileSize, none, List.length_nil, Nat.zero_mul]

/-- The entries that are written for a name. -/
theorem put_added (units : List Nat) (entry : Entry) {i : Nat} (least : off ≤ i)
    (most : i ≤ off + units.length) :
    (i < off + units.length ∧
      ∃ unit ∈ units, (tree.put dir off (units.map .long ++ [entry])).entry dir i = .long unit) ∨
    (i = off + units.length ∧ (tree.put dir off (units.map .long ++ [entry])).entry dir i = entry) := by
  obtain ⟨k, rfl⟩ : ∃ k, i = off + k := ⟨i - off, by omega⟩
  rcases Nat.lt_or_eq_of_le (by omega : k ≤ units.length) with inner | rfl
  · refine .inl ⟨by omega, units[k], List.getElem_mem inner, Listing.put_inside _ ?_⟩
    rw [List.getElem?_append_left (by simpa using inner), List.getElem?_map, List.getElem?_eq_getElem inner]
    rfl
  · refine .inr ⟨rfl, Listing.put_inside _ ?_⟩
    rw [List.getElem?_append_right (by simp), List.length_map, Nat.sub_self]
    rfl

/-- A name is added to a directory. -/
theorem addFile_spec (linear : Linear vol) (chained : Chained vol disk)
    (shaped : Shaped vol (view vol disk)) (opened : (view vol disk).count dir ≠ 0)
    (lands : Lands vol (fdOf vol dir) (emptyOffset vol disk (fdOf vol dir) (units.length + 1)))
    {grown : Nat} {pos : Pos}
    (done : addFile vol disk (fdOf vol dir) units entry grown = some (pos, after)) :
    Chained vol after ∧
      Added vol (view vol disk) (view vol after) dir (emptyOffset vol disk (fdOf vol dir) (units.length + 1)) units
        entry ∧ pos = ⟨(place vol after (fdOf vol dir)
          (emptyOffset vol disk (fdOf vol dir) (units.length + 1) + units.length)).cln,
        (32 * (emptyOffset vol disk (fdOf vol dir) (units.length + 1) + units.length)) &&&
          (bts2rd vol (fdOf vol dir) - 1)⟩ := by
  obtain ⟨enough, less⟩ := @Shaped.freeEntries vol disk dir linear shaped (units.length + 1) (Nat.succ_pos _)
  have entries : ∀ i < size vol disk (fdOf vol dir), (view vol disk).entry dir i = entryAt vol disk (fdOf vol dir) i :=
    fun i inside => view_entry inside
  rw [addFile] at done
  generalize start : emptyOffset vol disk (fdOf vol dir) (units.length + 1) = off at done lands ⊢
  rw [emptyOffset] at start
  -- what the write of the name adds, to the directory or to the one with a new block
  have added : ∀ middle : Disk, (view vol middle).entry = (view vol disk).entry →
      (∀ other, other ≠ dir → (view vol middle).count other = (view vol disk).count other) →
      ((view vol middle).count dir = (view vol disk).count dir ∨
        (view vol middle).count dir = (view vol disk).count dir + perBlock vol dir ∧
          off ≤ (view vol disk).count dir ∧ (view vol disk).count dir ≤ off + units.length) →
      (∀ i, off ≤ i → i ≤ off + units.length → ((view vol disk).entry dir i).IsFree) →
      (∀ i < off, (view vol disk).entry dir i ≠ .last) → Chained vol middle →
      writeEntries vol middle (fdOf vol dir) off units entry = some (pos, after) →
      Chained vol after ∧ Added vol (view vol disk) (view vol after) dir off units entry ∧
        pos = ⟨(place vol after (fdOf vol dir) (off + units.length)).cln,
          (32 * (off + units.length)) &&& (bts2rd vol (fdOf vol dir) - 1)⟩ := by
    intro middle same count larger free gapless linked wrote
    obtain ⟨inside, rfl, chain, put⟩ := writeEntries_spec linear linked lands wrote
    have length : (units.map Entry.long ++ [entry]).length = units.length + 1 := by simp
    refine ⟨linked.congr chain, ?_, by rw [place_congr chain]⟩
    rw [put]
    constructor
    case count =>
      intro other ne
      rw [Listing.put_count]
      exact count other ne
    case grown =>
      rw [Listing.put_count]
      exact larger
    case inside =>
      rw [Listing.put_count]
      exact inside
    case free => exact free
    case gapless => exact gapless
    case long =>
      intro i least most
      obtain ⟨_, here⟩ | ⟨last, _⟩ := @put_added (view vol middle) dir off units entry _ least
        (Nat.le_of_lt most)
      · exact here
      · omega
    case short =>
      obtain ⟨before, _⟩ | ⟨_, here⟩ := @put_added (view vol middle) dir off units entry _
        (Nat.le_add_right off units.length) (Nat.le_refl _)
      · omega
      · exact here
    case other =>
      intro dir' i outside
      rw [Listing.put_other _ _ (by omega), same]
  by_cases short : (freeEntries vol disk (fdOf vol dir) (units.length + 1)).2 < units.length + 1
  · obtain ⟨bound, run⟩ := less short
    rw [if_pos short] at done start
    rw [extend] at done
    by_cases fixed : (fdOf vol dir).fixed vol = true
    · rw [if_pos fixed] at done
      cases done
    · rw [if_neg fixed] at done
      by_cases free : Free vol disk grown
      · rw [if_pos free] at done
        have there : disk.chain dir ≠ [] := by
          have some := clusters_ne_nil opened
          rwa [(clusters_chain fixed).1] at some
        have larger := view_link linear chained free fixed
        have same : (view vol (link vol disk dir grown)).entry = (view vol disk).entry := by rw [larger]
        refine added _ same ?_ ?_ ?_ ?_ (chained.link free (.inl there)) done
        · intro other ne
          rw [congrArg Listing.count larger]
          exact update_of_ne ne _ _
        · refine .inr ⟨?_, ?_, ?_⟩
          · rw [congrArg Listing.count larger]
            exact update_self _ _ _
          · change off ≤ size vol disk (fdOf vol dir)
            omega
          · change size vol disk (fdOf vol dir) ≤ off + units.length
            omega
        · intro i least most
          by_cases inside : i < size vol disk (fdOf vol dir)
          · rw [entries i inside]
            exact run.free i (by omega) inside
          · exact .inr (view_beyond (Nat.not_lt.mp inside))
        · intro i before
          rw [entries i (by omega)]
          exact run.gapless i (by omega)
      · rw [if_neg free] at done
        cases done
  · have run := enough (Nat.not_lt.mp short)
    have inside := run.inside
    rw [if_neg short] at done start
    refine added disk rfl (fun _ _ => rfl) (.inl rfl) ?_ ?_ chained done
    · intro i least most
      rw [entries i (by omega)]
      exact run.free i (by omega) (by omega)
    · intro i before
      rw [entries i (by omega)]
      exact run.gapless i (by omega)

/-- The mask of a position in the root directory of FAT12 and FAT16 keeps its offset. -/
def Kept (vol : Volume) (fd : DirFd) (i : Nat) : Prop :=
  fd.fixed vol = true → (32 * i) &&& (vol.rdirSize - 1) = 32 * i
deriving Decidable

/-- The position of the short entry. -/
theorem Kept.pos (linear : Linear vol) {i : Nat} (kept : Kept vol (fdOf vol dir) i)
    (inside : i < size vol disk (fdOf vol dir)) :
    ⟨(place vol disk (fdOf vol dir) i).cln, (32 * i) &&& (bts2rd vol (fdOf vol dir) - 1)⟩ =
      place vol disk (fdOf vol dir) i := by
  have masked : (32 * i) &&& (bts2rd vol (fdOf vol dir) - 1) = 32 * i % bts2rd vol (fdOf vol dir) := by
    by_cases fixed : (fdOf vol dir).fixed vol = true
    · have bytes := @size_mul vol disk linear dir
      obtain ⟨single, block⟩ := @clusters_fixed vol disk dir fixed
      rw [single, block, List.length_singleton, Nat.one_mul] at bytes
      rw [block, kept fixed, Nat.mod_eq_of_lt (by omega)]
    · rw [(@clusters_chain vol disk dir fixed).2, linear.bpc, Nat.and_two_pow_sub_one_eq_mod]
  rw [masked]
  rfl

/-- The entries behind the creation of a directory: it has a block with the entries of itself and of its parent, and
its short entry has its cluster number. -/
def planted (vol : Volume) (tree : Listing) (dir i fresh : Nat) : Listing :=
  ((({ tree with count := Function.update tree.count fresh (perBlock vol fresh) } : Listing).set fresh 0
    (.short dotName true fresh)).set fresh 1 (.short dotdotName true (parentNum vol (fdOf vol dir)))).set dir i
    ((tree.entry dir i).setClusterNum fresh)

/-- A write of an entry at its position. -/
theorem view_write (linear : Linear vol) (chained : Chained vol disk) (entries : Nat → Entry) {i : Nat} {pos : Pos}
    (spot : place vol disk (fdOf vol dir) i = pos) (inside : i < size vol disk (fdOf vol dir)) :
    view vol { disk with entries := update entries (address vol pos) entry } =
      (view vol { disk with entries := entries }).set dir i entry := by
  subst spot
  exact @view_set vol { disk with entries := entries } dir i linear (chained.congr rfl) inside entry

/-- A free cluster is no directory. -/
theorem Free.unused {fresh : Nat} (chained : Chained vol disk) (free : Free vol disk fresh) :
    disk.chain fresh = [] := by
  by_contra some
  exact free.2.2 fresh free.2.1 (List.mem_of_head? (chained.head fresh some))

/-- A directory that is not the root directory of FAT12 and FAT16 has entries if it has a chain. -/
theorem count_unfixed (linear : Linear vol) (unfixed : ¬ (fdOf vol dir).fixed vol = true) :
    (view vol disk).count dir = (disk.chain dir).length * perBlock vol dir := by
  have whole := @size_eq vol disk dir linear
  rwa [(clusters_chain unfixed).1] at whole

theorem makeDirectory_spec (linear : Linear vol) (chained : Chained vol disk) {i fresh : Nat}
    (inside : i < size vol disk (fdOf vol dir)) (rooted : vol.type = .fat32 → disk.chain vol.rdirCl ≠ [])
    (done : makeDirectory vol disk (fdOf vol dir) (place vol disk (fdOf vol dir) i) fresh = some after) :
    Chained vol after ∧ 2 ≤ fresh ∧ fresh ≠ vol.rdirCl ∧ (view vol disk).count fresh = 0 ∧
      view vol after = planted vol (view vol disk) dir i fresh := by
  rw [makeDirectory] at done
  by_cases free : Free vol disk fresh
  · rw [if_pos free] at done
    cases done
    have none := free.unused chained
    have apart : fresh ≠ vol.rdirCl := by
      rintro rfl
      by_cases type : vol.type = .fat32
      · exact rooted type none
      · have least := free.1
        have zero := linear.rdirCl type
        omega
    have unfixed : ¬ (fdOf vol fresh).fixed vol = true := fun fixed => apart (fdOf_fixed.mp fixed).1
    have count : (view vol disk).count fresh = 0 := by
      rw [count_unfixed linear unfixed, none, List.length_nil, Nat.zero_mul]
    have ne : dir ≠ fresh := by
      rintro rfl
      change size vol disk (fdOf vol dir) = 0 at count
      omega
    have larger := view_link linear chained free unfixed
    have linked := chained.link free (.inr rfl)
    have block := perBlock_least linear fresh
    have long : size vol (link vol disk fresh fresh) (fdOf vol fresh) = perBlock vol fresh := by
      have equal := congrFun (congrArg Listing.count larger) fresh
      change size vol disk (fdOf vol fresh) = 0 at count
      rw [count, Nat.zero_add] at equal
      exact equal.trans (update_self _ _ _)
    have chain : clusters vol (link vol disk fresh fresh) (fdOf vol fresh) = [fresh] := by
      rw [(clusters_chain unfixed).1, link_self, none, List.nil_append]
    have bytes : 64 ≤ vol.bpc := by
      obtain ⟨k, whole, some⟩ := linear.bpc_entries
      omega
    have first : place vol (link vol disk fresh fresh) (fdOf vol fresh) 0 = ⟨fresh, 0⟩ := by
      rw [place, chain, Nat.mul_zero, Nat.zero_div, Nat.zero_mod]
      rfl
    have second : place vol (link vol disk fresh fresh) (fdOf vol fresh) 1 = ⟨fresh, 32⟩ := by
      rw [place, chain, (@clusters_chain vol disk fresh unfixed).2, Nat.mul_one, Nat.div_eq_of_lt (by omega),
        Nat.mod_eq_of_lt (by omega)]
      rfl
    have within : i < size vol (link vol disk fresh fresh) (fdOf vol dir) := by
      have equal := congrFun (congrArg Listing.count larger) dir
      exact inside.trans_eq (equal.trans (update_of_ne ne _ _)).symm
    have spot : place vol (link vol disk fresh fresh) (fdOf vol dir) i = place vol disk (fdOf vol dir) i := by
      have same : (link vol disk fresh fresh).chain (fdOf vol dir).cln = disk.chain (fdOf vol dir).cln :=
        link_other ne
      rw [place, place, clusters, clusters, same]
    refine ⟨linked.congr rfl, free.1, apart, count, ?_⟩
    -- the two entries of the new directory, then the cluster number
    have below : 0 < size vol (link vol disk fresh fresh) (fdOf vol fresh) := by omega
    have below' : 1 < size vol (link vol disk fresh fresh) (fdOf vol fresh) := by omega
    have pair : ∀ e e', view vol { link vol disk fresh fresh with
        entries := update (update (link vol disk fresh fresh).entries (address vol ⟨fresh, 0⟩) e)
          (address vol ⟨fresh, 32⟩) e' } =
        ((view vol (link vol disk fresh fresh)).set fresh 0 e).set fresh 1 e' := by
      intro e e'
      rw [view_write linear linked _ second below', view_write linear linked _ first below]
    have read : ∀ entries tree, view vol { link vol disk fresh fresh with entries := entries } = tree →
        entries (address vol (place vol disk (fdOf vol dir) i)) = tree.entry dir i := by
      rintro entries _ rfl
      rw [← spot]
      exact (if_pos within).symm
    rw [view_write linear linked _ spot within, pair, read _ _ (pair _ _),
      Listing.set_other _ _ (fun wrong => ne wrong.1), Listing.set_other _ _ (fun wrong => ne wrong.1),
      larger, planted, show size vol disk (fdOf vol fresh) = 0 from count, Nat.zero_add]
  · rw [if_neg free] at done
    cases done

/-- The entries of a name become empty. -/
theorem setFirstChar_spec (linear : Linear vol) (chained : Chained vol disk) {node : Node}
    (order : node.first ≤ node.idx) (inside : node.idx < size vol disk (fdOf vol node.dir)) :
    Chained vol (setFirstChar vol disk node) ∧ view vol (setFirstChar vol disk node) =
        (view vol disk).put node.dir node.first (List.replicate (node.idx + 1 - node.first) .empty) :=
  ⟨chained.congr rfl, view_put linear chained (by rw [List.length_replicate]; omega)⟩

variable {cln : Nat}

/-- A file without clusters has none to free. -/
theorem release_none (none : disk.chain cln = []) : release disk cln = disk := by
  rw [release, ← none, Function.update_eq_self]

theorem release_self (disk : Disk) (cln : Nat) : (release disk cln).chain cln = [] := update_self _ _ _

theorem release_other {other : Nat} (ne : other ≠ cln) :
    (release disk cln).chain other = disk.chain other :=
  update_of_ne ne _ _

/-- A directory has no entries any more. -/
def Listing.drop (tree : Listing) (cln : Nat) : Listing where
  count := Function.update tree.count cln 0
  entry := Function.update tree.entry cln fun _ => .last

theorem Listing.drop_self (tree : Listing) (cln : Nat) :
    (tree.drop cln).count cln = 0 ∧ (tree.drop cln).entry cln = fun _ => .last :=
  ⟨update_self _ _ _, update_self _ _ _⟩

theorem Listing.drop_other {tree : Listing} {other : Nat} (ne : other ≠ cln) :
    (tree.drop cln).count other = tree.count other ∧ (tree.drop cln).entry other = tree.entry other :=
  ⟨update_of_ne ne _ _, update_of_ne ne _ _⟩

/-- The chain of a removed directory is freed. -/
theorem Chained.release (chained : Chained vol disk) (cln : Nat) : Chained vol (release disk cln) := by
  have members : ∀ first x, x ∈ (Tree.release disk cln).chain first → x ∈ disk.chain first := by
    intro first x member
    by_cases same : first = cln
    · subst same
      rw [release_self] at member
      cases member
    · rwa [release_other same] at member
  constructor
  · intro first some
    by_cases same : first = cln
    · subst same
      exact absurd (release_self disk first) some
    · rw [release_other same] at some ⊢
      exact chained.head first some
  · intro first x member
    exact chained.range first x (members first x member)
  · intro first second x left right
    exact chained.apart first second x (members first x left) (members second x right)
  · intro first
    by_cases same : first = cln
    · subst same
      rw [release_self]
      exact List.nodup_nil
    · rw [release_other same]
      exact chained.nodup first

/-- A removed directory has no entries. -/
theorem view_release (unfixed : ¬ (fdOf vol cln).fixed vol = true) :
    view vol (release disk cln) = (view vol disk).drop cln := by
  have chain : ∀ other, other ≠ cln → clusters vol (release disk cln) (fdOf vol other) =
      clusters vol disk (fdOf vol other) := by
    intro other ne
    have same : (release disk cln).chain (fdOf vol other).cln = disk.chain (fdOf vol other).cln :=
      release_other ne
    rw [clusters, clusters, same]
  have none : (view vol (release disk cln)).count cln = 0 := by
    change size vol (release disk cln) (fdOf vol cln) = 0
    rw [size, fileSize, (clusters_chain unfixed).1, release_self, List.length_nil, Nat.zero_mul]
  refine Listing.ext (funext fun other => ?_) (funext fun other => funext fun i => ?_)
  · by_cases same : other = cln
    · subst same
      exact none.trans (Listing.drop_self _ _).1.symm
    · rw [(Listing.drop_other same).1]
      change size vol (release disk cln) (fdOf vol other) = size vol disk (fdOf vol other)
      rw [size, fileSize, chain other same]
      rfl
  · by_cases same : other = cln
    · subst same
      rw [(Listing.drop_self _ _).2]
      exact view_beyond (none ▸ Nat.zero_le i)
    · rw [(Listing.drop_other same).2]
      change (if i < size vol (release disk cln) (fdOf vol other) then
        entryAt vol (release disk cln) (fdOf vol other) i else .last) = _
      rw [size, fileSize, chain other same, entryAt, place, chain other same]
      rfl

end Rtems.Dosfs.Tree
