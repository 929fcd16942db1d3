import Rtems.Dosfs.FileLength

/-!
# The truncation of a file
-/

namespace Rtems.Dosfs

open ByteRange FsInfo FileFd Links

variable {vol : Volume} {device : Device} {fs : FsInfo} {fd : FileFd} {chain : List Nat}

/-- A file after the end of its chain was given back. The size is changed by the caller. -/
structure Truncated (vol : Volume) (before : Clusters) (fd : FileFd) (chain : List Nat)
    (newLength : Nat) (state : Clusters) (after : FileFd) : Prop where
  kin : Kin fd after
  size : after.fatFileSize = fd.fatFileSize
  holds : Holds vol state.table { after with fatFileSize := newLength }
    (chain.take (clustersOf vol newLength))
  table : ∀ cln, cln ∉ chain → state.table cln = before.table cln
  data : state.data = before.data
  freed : (clustersOf vol newLength < chain.length →
      ∀ cln ∈ chain.getLast?, Clear vol.type (before.table cln)) →
    (∀ cln ∈ chain.drop (clustersOf vol newLength), state.table cln = genfatFree) ∧
      (Counted vol before → Counted vol state)

variable {newLength : Nat}

variable {before : Clusters}

/-- Nothing is given back. -/
theorem Truncated.same (holds : Holds vol before.table fd chain)
    (shorter : newLength < fd.fatFileSize) (all : clustersOf vol newLength = chain.length) :
    Truncated vol before fd chain newLength before fd where
  kin := ⟨rfl, rfl, rfl, rfl, rfl⟩
  size := rfl
  holds := by
    have known : fd.fatFileSize ≠ 0 := by omega
    have word := holds.word
    rw [all, List.take_length]
    exact { holds with
      word := by change newLength < 2 ^ 32; omega
      clusters := all.symm
      first := fun _ => holds.first known
      place := fun _ => holds.place known }
  table := fun _ _ => rfl
  data := rfl
  freed := fun _ => by
    rw [all, List.drop_length]
    exact ⟨by simp, id⟩

/-- The reserved bits of all entries of a chain are clear if those of the last one are. -/
theorem Chained.clear_all {table : Nat → Nat} (laid : Laid vol device)
    (chained : Chained vol table chain) (last : ∀ cln ∈ chain.getLast?, Clear vol.type (table cln)) :
    ∀ cln ∈ chain, Clear vol.type (table cln) := by
  intro cln member
  obtain ⟨index, inside, rfl⟩ := List.getElem_of_mem member
  by_cases more : index + 1 < chain.length
  · exact chained.clear laid (List.getElem?_eq_getElem inside) (List.getElem?_eq_getElem more)
  · apply last
    have final : chain.length - 1 = index := by omega
    rw [List.getLast?_eq_getElem?, final]
    exact List.getElem?_eq_getElem inside

/-- The whole chain is given back. -/
theorem Truncated.none (laid : Laid vol device) (holds : Holds vol before.table fd chain) :
    Truncated vol before fd chain 0
      ((before.release vol.type chain).count (before.freeCls + chain.length))
      { fd with
        cln := genfatFree
        map := { fileCln := undefinedValue, diskCln := undefinedValue, lastCln := undefinedValue } }
    where
  kin := ⟨rfl, rfl, rfl, rfl, rfl⟩
  size := rfl
  holds := by
    have zero : clustersOf vol 0 = 0 :=
      clustersOf_eq laid.toSized (by omega) (by have := laid.toSized.bpc_pos; omega)
    rw [zero, List.take_zero]
    exact {
      toChained := ⟨linked_nil, by simp⟩
      plain := holds.plain
      regular := holds.regular
      limit := holds.limit
      word := Nat.two_pow_pos 32
      clusters := zero.symm
      first := fun some => absurd rfl some
      place := fun some => absurd rfl some
      lastCln := fun known => absurd rfl known }
  table := fun cln outside => if_neg outside
  data := rfl
  freed := by
    have zero : clustersOf vol 0 = 0 :=
      clustersOf_eq laid.toSized (by omega) (by have := laid.toSized.bpc_pos; omega)
    intro last
    rw [zero] at last ⊢
    rcases Nat.eq_zero_or_pos chain.length with empty | some
    · obtain rfl := List.eq_nil_of_length_eq_zero empty
      exact ⟨by simp, release_counted laid holds.toChained (by simp)⟩
    · have clear := holds.toChained.clear_all laid (last some)
      refine ⟨fun cln member => ?_, release_counted laid holds.toChained clear⟩
      exact (if_pos member).trans (storedEntry_free (clear cln member))

/-- The last cluster of a chain that was cut. -/
theorem getLast?_take {count last : Nat} (there : chain[count]? = some last) :
    (chain.take (count + 1)).getLast? = some last := by
  have inside := (List.getElem?_eq_some_iff.mp there).1
  rw [List.getLast?_eq_getElem?, List.length_take, Nat.min_eq_left (by omega), Nat.add_sub_cancel,
    List.getElem?_take_of_lt (Nat.lt_succ_self count), there]

/-- The chain is cut behind a cluster. -/
theorem Truncated.cut {count last : Nat} (laid : Laid vol device)
    (holds : Holds vol before.table fd chain) (shorter : newLength < fd.fatFileSize)
    (clusters : clustersOf vol newLength = count + 1) (inside : count + 1 < chain.length)
    (there : chain[count]? = some last) :
    Truncated vol before fd chain newLength
      (((before.release vol.type (chain.drop (count + 1))).count
        (before.freeCls + (chain.drop (count + 1)).length)).set vol.type last genfatEoc)
      { fd with map := { fileCln := count, diskCln := last, lastCln := last } } := by
  have ends := getLast?_take there
  have apart : ∀ cln ∈ chain.take (count + 1), cln ∉ chain.drop (count + 1) := by
    have nodup := holds.nodup
    rw [← List.take_append_drop (count + 1) chain] at nodup
    intro cln front behind
    exact (List.nodup_append.mp nodup).2.2 cln front cln behind rfl
  have lastFront : last ∈ chain.take (count + 1) := List.mem_of_mem_getLast? ends
  have member : last ∈ chain := List.mem_of_getElem? there
  -- the table after both changes
  have table : ∀ cln, (((before.release vol.type (chain.drop (count + 1))).count
      (before.freeCls + (chain.drop (count + 1)).length)).set vol.type last genfatEoc).table cln =
        if cln = last then storedEntry vol.type (before.table last) genfatEoc
        else if cln ∈ chain.drop (count + 1) then storedEntry vol.type (before.table cln) genfatFree
        else before.table cln := by
    intro cln
    by_cases same : cln = last
    · rw [if_pos same, same]
      refine (Function.update_self _ _ _).trans ?_
      exact congrArg (storedEntry vol.type · genfatEoc) (if_neg (apart last lastFront))
    · rw [if_neg same]
      exact Function.update_of_ne same _ _
  have size : newLength < 2 ^ 32 := by
    have word := holds.word
    omega
  have length : (chain.take (count + 1)).length = count + 1 := by
    rw [List.length_take]
    omega
  refine ⟨⟨rfl, rfl, rfl, rfl, rfl⟩, rfl, ?_, ?_, rfl, ?_⟩
  · rw [clusters]
    have cut : Chained vol (((before.release vol.type (chain.drop (count + 1))).count
        (before.freeCls + (chain.drop (count + 1)).length)).set vol.type last genfatEoc).table
          (chain.take (count + 1)) := by
      refine ⟨?_, fun cln front => holds.valid cln (List.mem_of_mem_take front)⟩
      apply holds.toLinked.take ends
      · rw [table, if_pos rfl]
        exact storedEntry_eoc _ _
      · intro cln front distinct
        rw [table, if_neg distinct, if_neg (apart cln front)]
    have known : fd.fatFileSize ≠ 0 := by omega
    exact {
      toChained := cut
      plain := holds.plain
      regular := holds.regular
      limit := holds.limit
      word := size
      clusters := length.trans clusters.symm
      first := fun _ => (List.getElem?_take_of_lt (Nat.succ_pos count)).trans (holds.first known)
      place := fun _ => (List.getElem?_take_of_lt (Nat.lt_succ_self count)).trans there
      lastCln := fun _ => ends }
  · intro cln outside
    rw [table, if_neg, if_neg fun behind => outside (List.mem_of_mem_drop behind)]
    rintro rfl
    exact outside member
  · rw [clusters]
    intro final
    have clear := holds.toChained.clear_all laid (final inside)
    constructor
    · intro cln behind
      rw [table, if_neg, if_pos behind]
      · exact storedEntry_free (clear cln (List.mem_of_mem_drop behind))
      · rintro rfl
        exact apart cln lastFront behind
    · intro right known
      refine (release_counted laid (holds.toChained.drop (count + 1))
        (fun cln behind => clear cln (List.mem_of_mem_drop behind)) right known).trans
          (freeCount_congr fun cln => ?_).symm
      rw [table]
      by_cases same : cln = last
      · rw [if_pos same, same]
        refine iff_of_false (isEoc_ne (storedEntry_eoc _ _)) ?_
        have kept : (before.release vol.type (chain.drop (count + 1))).table last =
          before.table last := if_neg (apart last lastFront)
        exact kept.symm ▸ holds.entry_ne member
      · rw [if_neg same]
        rfl

/-- The chain from a cluster on is given back. -/
theorem free_drop (ready : Ready fs) (chained : Chained fs.vol fs.table chain) {count cur : Nat}
    (there : chain[count]? = some cur) :
    ∃ after, fs.freeFatClustersChain cur = (.ok (), after) ∧
      Becomes fs after ((fs.clusters.release fs.vol.type (chain.drop count)).count
        (fs.clusters.freeCls + (chain.drop count).length)) := by
  obtain ⟨inside, rfl⟩ := List.getElem?_eq_some_iff.mp there
  have split := List.drop_eq_getElem_cons inside
  obtain ⟨after, done, becomes⟩ := @freeFatClustersChain_spec fs chain[count] (chain.drop (count + 1))
    ready (split ▸ chained.drop count)
  refine ⟨after, done, ?_⟩
  rw [split, List.length_cons]
  exact becomes

/-- The first cluster that a length does not need, if the length in whole clusters is a word. -/
theorem clStart_eq (sized : vol.Sized) (word : newLength + vol.bpc ≤ 2 ^ 32) :
    minus (newLength + vol.bpc) 1 / 2 ^ vol.bpcLog2 = clustersOf vol newLength ∧
      clustersOf vol newLength * 2 ^ vol.bpcLog2 % 2 ^ 32 = clustersOf vol newLength * vol.bpc := by
  have positive := sized.bpc_pos
  have difference : minus (newLength + vol.bpc) 1 = newLength + (vol.bpc - 1) := by
    rw [minus]
    omega
  obtain ⟨lower, upper⟩ := clustersOf_spec sized newLength
  constructor
  · rw [difference, clustersOf, sized.bpc]
  · rw [← sized.bpc, Nat.mod_eq_of_lt (by omega)]

/-- Nothing changes if the clusters of the new length hold the file. -/
theorem fatFileTruncate_same (sized : fs.vol.Sized) (word : newLength + fs.vol.bpc ≤ 2 ^ 32)
    (enough : fd.fatFileSize ≤ clustersOf fs.vol newLength * fs.vol.bpc) :
    fatFileTruncate fs fd newLength = (.ok (), fs, fd) := by
  obtain ⟨start, product⟩ := clStart_eq sized word
  rw [fatFileTruncate]
  split
  case isTrue => rfl
  case isFalse =>
    dsimp only
    rw [start, product, if_pos enough]

/-- A file is truncated, if the length in whole clusters is a word. -/
theorem fatFileTruncate_spec (ready : Ready fs) (holds : Holds fs.vol fs.table fd chain)
    (shorter : newLength < fd.fatFileSize) (word : newLength + fs.vol.bpc ≤ 2 ^ 32) :
    ∃ after state fd', fatFileTruncate fs fd newLength = (.ok (), after, fd') ∧
      Becomes fs after state ∧ Truncated fs.vol fs.clusters fd chain newLength state fd' := by
  obtain ⟨start, product⟩ := clStart_eq ready.toSized word
  obtain ⟨lower, upper⟩ := clustersOf_spec ready.toSized newLength
  obtain ⟨oldLower, oldUpper⟩ := clustersOf_spec ready.toSized fd.fatFileSize
  by_cases enough : clustersOf fs.vol newLength * fs.vol.bpc ≥ fd.fatFileSize
  · rw [fatFileTruncate_same ready.toSized word enough]
    have all : clustersOf fs.vol newLength = chain.length := by
      rw [holds.clusters]
      exact (clustersOf_eq ready.toSized enough (by omega)).symm
    exact ⟨fs, fs.clusters, fd, rfl, becomes_self ready, Truncated.same holds shorter all⟩
  · rw [fatFileTruncate, if_neg (by omega)]
    dsimp only
    rw [start, product, if_neg enough]
    have inside : clustersOf fs.vol newLength < chain.length := by
      rw [holds.clusters]
      by_contra far
      have product := Nat.mul_le_mul_right fs.vol.bpc (Nat.not_lt.mp far)
      omega
    cases count : clustersOf fs.vol newLength with
    | zero =>
      obtain rfl : newLength = 0 := by
        rw [count] at lower
        omega
      rw [count] at inside
      have there := List.getElem?_eq_getElem inside
      obtain ⟨middle, sought, quiet⟩ := fatFileLseek_spec ready holds there
      have table : middle.table = fs.table := congrArg Clusters.table quiet.clusters
      obtain ⟨after, freed, becomes⟩ := @free_drop middle chain quiet.ready
        (by rw [quiet.vol, table]; exact holds.toChained) 0 _ there
      rw [List.drop_zero, quiet.clusters, quiet.vol] at becomes
      rw [if_neg (by decide)]
      dsimp only
      rw [sought]
      dsimp only
      rw [freed]
      exact ⟨after, _, _, rfl, quiet.trans becomes, Truncated.none ready.toLaid holds⟩
    | succ count' =>
      rw [count] at inside
      have there := List.getElem?_eq_getElem inside
      have before := List.getElem?_eq_getElem (Nat.lt_of_succ_lt inside)
      obtain ⟨first, foundLast, quiet⟩ := fatFileLseek_spec ready holds before
      have tableF : first.table = fs.table := congrArg Clusters.table quiet.clusters
      obtain ⟨second, foundCur, still⟩ := @fatFileLseek_spec first (fd.seek count' chain[count']) chain
        quiet.ready (by rw [quiet.vol, tableF]; exact holds.seek before) (count' + 1) _ there
      rw [quiet.clusters] at still
      have same := quiet.trans still
      have tableS : second.table = fs.table := congrArg Clusters.table same.clusters
      obtain ⟨third, freed, becomes⟩ := @free_drop second chain same.ready
        (by rw [same.vol, tableS]; exact holds.toChained) (count' + 1) _ there
      rw [same.clusters, same.vol] at becomes
      obtain ⟨after, wrote, set⟩ := @setFatCluster_clusters third chain[count'] becomes.ready (by
          rw [becomes.vol, same.vol]
          exact holds.valid _ (List.mem_of_getElem? before)) genfatEoc
      rw [becomes.clusters, becomes.vol, same.vol] at set
      rw [if_pos (Nat.succ_ne_zero count'), Nat.add_sub_cancel, foundLast]
      dsimp only
      rw [foundCur]
      dsimp only
      rw [freed]
      dsimp only
      rw [if_pos (Nat.succ_ne_zero count'), wrote]
      exact ⟨after, _, _, rfl, (same.trans becomes).trans set,
        Truncated.cut ready.toLaid holds shorter count inside before⟩

end Rtems.Dosfs
