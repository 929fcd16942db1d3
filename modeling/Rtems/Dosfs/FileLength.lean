import Rtems.Dosfs.FileChain

/-!
# The length of a file

A file is extended by free clusters behind its chain, and it is truncated by giving back the clusters
that the new length does not need.
-/

namespace Rtems.Dosfs

open ByteRange FsInfo FileFd Links
open List (append_nil length_replicate not_mem_nil replicate)
open Nat (mod_lt succ_mul)

variable {vol : Volume} {device : Device} {fs : FsInfo} {fd : FileFd} {chain : List Nat}

/-- Descriptors of one file. -/
structure Kin (fd after : FileFd) : Prop where
  ofRootDir : after.ofRootDir = fd.ofRootDir
  directory : after.directory = fd.directory
  linksNum : after.linksNum = fd.linksNum
  sizeLimit : after.sizeLimit = fd.sizeLimit
  removed : after.removed = fd.removed

theorem seek_kin (fd : FileFd) (fileCln diskCln : Nat) : Kin fd (fd.seek fileCln diskCln) :=
  ⟨rfl, rfl, rfl, rfl, rfl⟩

theorem Kin.trans {first second third : FileFd} (left : Kin first second) (right : Kin second third) :
    Kin first third :=
  ⟨right.ofRootDir.trans left.ofRootDir, right.directory.trans left.directory,
    right.linksNum.trans left.linksNum, right.sizeLimit.trans left.sizeLimit,
    right.removed.trans left.removed⟩

variable {size : Nat}

/-- The rest of the last cluster. -/
theorem bytesRemain_eq (sized : vol.Sized) (word : size < 2 ^ 32) :
    bytesRemain vol size = clustersOf vol size * vol.bpc - size := by
  have positive := sized.bpc_pos
  have small := sized.bpc_lt
  have split := Nat.div_add_mod' size vol.bpc
  have rest := mod_lt size positive
  have difference : minus vol.bpc (size % vol.bpc) = vol.bpc - size % vol.bpc := by
    rw [minus]
    omega
  rw [bytesRemain, difference]
  by_cases whole : size % vol.bpc = 0
  · rw [whole, Nat.sub_zero, Nat.mod_self]
    have count : clustersOf vol size = size / vol.bpc := clustersOf_eq sized (by omega) (by omega)
    rw [count]
    omega
  · rw [Nat.mod_eq_of_lt (by omega)]
    have next : (size / vol.bpc + 1) * vol.bpc = size / vol.bpc * vol.bpc + vol.bpc := succ_mul _ _
    have count : clustersOf vol size = size / vol.bpc + 1 :=
      clustersOf_eq sized (by omega) (by omega)
    rw [count]
    omega

theorem clearRest_spec (ready : Ready fs) (holds : Holds fs.vol fs.table fd chain) {remain : Nat}
    (exact : fd.fatFileSize + remain = chain.length * fs.vol.bpc) (some : 0 < remain) :
    ∃ after fileCln diskCln data, clearRest fs fd remain = (.ok (), after, fd.seek fileCln diskCln) ∧
      Becomes fs after { fs.clusters with data := data } ∧
      Written fs.vol chain fs.data data fd.fatFileSize (replicate remain 0) ∧
      Holds fs.vol fs.table (fd.seek fileCln diskCln) chain := by
  obtain ⟨place, inside⟩ := position ready.toSized fd.fatFileSize
  have most := (clustersOf_spec ready.toSized fd.fatFileSize).2
  rw [← holds.clusters] at most
  have less : fd.fatFileSize / 2 ^ fs.vol.bpcLog2 < chain.length := by
    by_contra far
    have product := Nat.mul_le_mul_right fs.vol.bpc (Nat.not_lt.mp far)
    omega
  have there := List.getElem?_eq_getElem less
  have last : fd.fatFileSize % fs.vol.bpc + remain ≤ fs.vol.bpc := by
    by_contra far
    have next : (fd.fatFileSize / 2 ^ fs.vol.bpcLog2 + 1) * fs.vol.bpc < chain.length * fs.vol.bpc := by
      rw [succ_mul]
      omega
    have further := Nat.lt_of_mul_lt_mul_right next
    have product := Nat.mul_le_mul_right fs.vol.bpc (Nat.succ_le_of_lt further)
    rw [succ_mul, succ_mul] at product
    omega
  obtain ⟨middle, sought, quiet⟩ := fatFileLseek_spec ready holds there
  obtain ⟨after, wrote, written⟩ := @clusterWrite_clusters middle
    chain[fd.fatFileSize / 2 ^ fs.vol.bpcLog2] quiet.ready
    (by rw [quiet.vol]; exact holds.valid _ (List.mem_of_getElem? there)) (fd.fatFileSize % fs.vol.bpc)
    (replicate remain 0) (by rw [quiet.vol, length_replicate]; exact last)
  rw [length_replicate] at wrote
  rw [quiet.clusters] at written
  rw [clearRest, sought]
  dsimp only
  rw [clusterSet, FileFd.seek]
  rw [quiet.vol, wrote]
  dsimp only
  rw [if_neg (Classical.not_not.mpr rfl)]
  refine ⟨after, _, _, _, rfl, quiet.trans written, ?_, holds.seek there⟩
  constructor
  · have bytes := @chainBytes_write fs.vol chain ready.toSized fs.clusters
      (fd.fatFileSize / 2 ^ fs.vol.bpcLog2) chain[fd.fatFileSize / 2 ^ fs.vol.bpcLog2]
      (fd.fatFileSize % fs.vol.bpc) (replicate remain 0) holds.nodup there
      (by rw [length_replicate]; exact last)
    rw [place] at bytes
    exact bytes
  · intro other outside
    apply Clusters.write_of_ne
    rintro rfl
    exact outside (List.mem_of_getElem? there)

/-- An empty file has no cluster. -/
theorem Holds.empty {table : Nat → Nat} (sized : vol.Sized) (holds : Holds vol table fd chain)
    (empty : fd.fatFileSize = 0) : chain = [] := by
  cases chain with
  | nil => rfl
  | cons cln rest => exact absurd empty (@Holds.size_ne _ _ _ _ sized holds 0 cln rfl)

/-- The last cluster of a file, from the descriptor or from the chain. -/
theorem lastCluster_spec (ready : Ready fs) (holds : Holds fs.vol fs.table fd chain) {last : Nat}
    (found : chain.getLast? = some last) :
    ∃ after fileCln diskCln, (if fd.map.lastCln ≠ undefinedValue then (.ok fd.map.lastCln, fs, fd)
        else fatFileIoctl fs fd (fd.fatFileSize - 1)) = (.ok last, after, fd.seek fileCln diskCln) ∧
      Becomes fs after fs.clusters ∧ Holds fs.vol fs.table (fd.seek fileCln diskCln) chain := by
  split
  case isTrue known =>
    have same := holds.lastCln known
    rw [found, Option.some_inj] at same
    exact ⟨fs, _, _, by rw [same, FileFd.seek_self], becomes_self ready, holds⟩
  case isFalse =>
    have size : fd.fatFileSize ≠ 0 := by
      intro empty
      rw [holds.empty ready.toSized empty] at found
      cases found
    obtain ⟨lower, upper⟩ := clustersOf_spec ready.toSized fd.fatFileSize
    rw [← holds.clusters] at lower upper
    obtain ⟨place, inside⟩ := position ready.toSized (fd.fatFileSize - 1)
    have there : chain[(fd.fatFileSize - 1) / 2 ^ fs.vol.bpcLog2]? = some last := by
      generalize (fd.fatFileSize - 1) / 2 ^ fs.vol.bpcLog2 = index at place
      rw [List.getLast?_eq_getElem?] at found
      rw [← found]
      congr 1
      have less : index < chain.length := by
        by_contra far
        have product := Nat.mul_le_mul_right fs.vol.bpc (Nat.not_lt.mp far)
        omega
      have most : chain.length < index + 1 + 1 := by
        by_contra far
        have product := Nat.mul_le_mul_right fs.vol.bpc (Nat.not_lt.mp far)
        rw [succ_mul, succ_mul] at product
        omega
      omega
    obtain ⟨after, sought, quiet⟩ := fatFileLseek_spec ready holds there
    rw [fatFileIoctl, if_neg (by omega), isFat12OrFat16RootDir, holds.plain, Bool.false_and,
      if_neg (by decide)]
    exact ⟨after, _, _, sought, quiet, holds.seek there⟩

/-- A chain is put behind a file. -/
theorem linkChain_spec (ready : Ready fs) (holds : Holds fs.vol fs.table fd chain)
    {new : List Nat} {head : Nat} (behind : Chained fs.vol fs.table new)
    (begins : new.head? = some head) (apart : ∀ cln ∈ chain, cln ∉ new)
    (clear : ∀ cln ∈ chain.getLast?, Clear fs.vol.type (fs.table cln)) :
    ∃ after fd' table, linkChain fs fd head = (.ok (), after, fd') ∧
      Becomes fs after { fs.clusters with table := table } ∧
      Chained fs.vol table (chain ++ new) ∧ (∀ cln, cln ∉ chain → table cln = fs.table cln) ∧
      Kin fd fd' ∧ (chain ++ new)[0]? = some fd'.cln ∧
      (chain ++ new)[fd'.map.fileCln]? = some fd'.map.diskCln := by
  have first : new[0]? = some head := by rw [← begins, List.head?_eq_getElem?]
  rw [linkChain]
  by_cases empty : fd.fatFileSize = 0
  · obtain rfl := holds.empty ready.toSized empty
    rw [if_pos empty]
    exact ⟨fs, _, fs.table, rfl, becomes_self ready, behind, fun _ _ => rfl, ⟨rfl, rfl, rfl, rfl, rfl⟩,
      first, first⟩
  · rw [if_neg empty]
    have start := holds.first empty
    obtain ⟨last, found⟩ : ∃ last, chain.getLast? = some last := by
      cases found : chain.getLast? with
      | some last => exact ⟨last, rfl⟩
      | none =>
        rw [List.getLast?_eq_none_iff.mp found] at start
        cases start
    have mem := List.mem_of_mem_getLast? found
    have valid := holds.valid last mem
    obtain ⟨middle, fileCln, diskCln, known, quiet, sought⟩ := lastCluster_spec ready holds found
    obtain ⟨between, wrote, set⟩ := setFatCluster_clusters quiet.ready (quiet.vol.symm ▸ valid) head
    have value : storedEntry fs.vol.type (fs.clusters.table last) head = head :=
      ready.storedEntry_link (behind.valid head (List.mem_of_mem_head? begins)) (clear last found)
    rw [quiet.clusters, quiet.vol, Clusters.set, value] at set
    have released := bufRelease_clusters set.ready
    rw [set.clusters] at released
    rw [known]
    dsimp only
    rw [wrote]
    refine ⟨between.bufRelease.2, fd.seek fileCln diskCln, Function.update fs.table last head, rfl,
      quiet.trans (set.trans released), ⟨?_, ?_⟩, ?_, seek_kin _ _ _, ?_, ?_⟩
    · exact holds.toLinked.append behind.toLinked found begins apart (Function.update_self _ _ _)
        fun other distinct => Function.update_of_ne distinct _ _
    · intro cln inside
      rcases List.mem_append.mp inside with old | fresh
      · exact holds.valid cln old
      · exact behind.valid cln fresh
    · intro cln outside
      apply Function.update_of_ne
      rintro rfl
      exact outside mem
    · have size : (fd.seek fileCln diskCln).fatFileSize ≠ 0 := empty
      exact List.getElem?_append_left (List.getElem?_eq_some_iff.mp (sought.first size)).1 ▸
        sought.first size
    · have size : (fd.seek fileCln diskCln).fatFileSize ≠ 0 := empty
      exact List.getElem?_append_left (List.getElem?_eq_some_iff.mp (sought.place size)).1 ▸
        sought.place size

variable {count : Nat}

theorem clustersOf_le (sized : vol.Sized) (fits : size ≤ count * vol.bpc) :
    clustersOf vol size ≤ count := by
  obtain ⟨_, upper⟩ := clustersOf_spec sized size
  by_contra more
  have product := Nat.mul_le_mul_right vol.bpc (Nat.not_le.mp more)
  rw [succ_mul] at product
  omega

theorem clustersOf_word (sized : vol.Sized) (word : size < 2 ^ 32) :
    clustersOf vol size * vol.bpc ≤ 2 ^ 32 := by
  have small := sized.small
  have whole : 2 ^ (32 - vol.bpcLog2) * vol.bpc = 2 ^ 32 := by
    rw [sized.bpc, ← Nat.pow_add]
    congr 1
    omega
  rw [← whole]
  exact Nat.mul_le_mul_right _ (clustersOf_le sized (by omega))

/-- The count of the clusters that are added. -/
theorem clsToAdd (sized : vol.Sized) {len : Nat} (more : count * vol.bpc < len) :
    count + ((len - count * vol.bpc - 1) / 2 ^ vol.bpcLog2 + 1) = clustersOf vol len := by
  have positive := sized.bpc_pos
  rw [← sized.bpc]
  have split := Nat.div_add_mod' (len - count * vol.bpc - 1) vol.bpc
  have rest := mod_lt (len - count * vol.bpc - 1) positive
  generalize (len - count * vol.bpc - 1) / vol.bpc = quotient at split ⊢
  have product : (count + (quotient + 1)) * vol.bpc =
      count * vol.bpc + (quotient * vol.bpc + vol.bpc) := by
    rw [Nat.add_mul, succ_mul]
  exact (clustersOf_eq sized (by omega) (by omega)).symm

/-- The length that a file with `count` clusters reaches when it needs more clusters than are free. -/
def reached (vol : Volume) (newLength count need free : Nat) : Nat :=
  if need ≤ free then newLength
  else newLength - min (newLength - count * vol.bpc) ((need - free) * vol.bpc)

theorem reached_min (vol : Volume) (len count need free : Nat) :
    reached vol len count need (min need free) = reached vol len count need free := by
  rw [reached, reached]
  by_cases enough : need ≤ free
  · rw [if_pos enough, if_pos (by omega)]
  · rw [if_neg enough, Nat.min_eq_right (by omega), if_neg enough]

/-- The length of a file that got a part of the clusters. -/
theorem extended_length (sized : vol.Sized) {len need added : Nat} (more : count * vol.bpc < len)
    (word : len < 2 ^ 32) (needed : count + need = clustersOf vol len) (few : added ≤ need)
    (nonempty : 0 < count + added) {length : Nat}
    (result : length = if need ≠ added then minus len (min (len - count * vol.bpc) (minus need added * 2 ^ vol.bpcLog2 % 2 ^ 32)) else len)
    :
    clustersOf vol length = count + added ∧ count * vol.bpc ≤ length ∧ length ≤ len ∧
      (added = 0 → length = count * vol.bpc) ∧ length = reached vol len count need added := by
  obtain ⟨lower, upper⟩ := clustersOf_spec sized len
  have whole := clustersOf_word sized word
  rw [← needed, Nat.add_mul] at lower upper whole
  split at result
  case isFalse all =>
    have same : need = added := Classical.not_not.mp all
    subst same
    refine ⟨by rw [result, needed], by omega, by omega, ?_, by rw [reached, if_pos (le_refl _), result]⟩
    rintro rfl
    omega
  case isTrue short =>
    have products := Nat.add_mul added (need - added) vol.bpc
    rw [Nat.add_sub_cancel' few] at products
    have bounded : need < 2 ^ 32 := by
      have least : need * 2 ≤ need * vol.bpc := Nat.mul_le_mul_left need sized.two_le_bpc
      omega
    have less : (need - added) * vol.bpc < 2 ^ 32 := by
      rcases Nat.eq_zero_or_pos count with rfl | some
      · have least := Nat.le_mul_of_pos_left vol.bpc (by omega : 0 < added)
        omega
      · have least := Nat.le_mul_of_pos_left vol.bpc some
        omega
    have difference : minus need added = need - added := by
      rw [minus]
      omega
    rw [difference, ← sized.bpc, Nat.mod_eq_of_lt less] at result
    have value : length = len - min (len - count * vol.bpc) ((need - added) * vol.bpc) := by
      rw [result, minus]
      omega
    have reach : length = reached vol len count need added := by
      rw [reached, if_neg (by omega), value]
    rcases Nat.eq_zero_or_pos added with none | some
    · have zero : added * vol.bpc = 0 := by rw [none, Nat.zero_mul]
      have same : count + added = count := by omega
      refine ⟨?_, by omega, by omega, fun _ => by omega, reach⟩
      rw [same]
      exact clustersOf_eq sized (by omega) (by omega)
    · refine ⟨clustersOf_eq sized ?_ ?_, by omega, by omega, by omega, reach⟩
      · rw [Nat.add_mul]
        omega
      · rw [Nat.add_mul]
        omega

/-- A file after clusters were put behind its chain. -/
structure Extended (vol : Volume) (before : Clusters) (fd : FileFd) (chain : List Nat)
    (zeroFill : Bool) (state : Clusters) (after : FileFd) (more : List Nat) : Prop where
  kin : Kin fd after
  holds : Holds vol state.table after (chain ++ more)
  free : ∀ cln ∈ more, before.table cln = genfatFree
  table : ∀ cln, cln ∉ chain → cln ∉ more → state.table cln = before.table cln
  data : ∀ cln, cln ∉ chain → cln ∉ more → state.data cln = before.data cln
  bytes : ∀ pos, pos < fd.fatFileSize →
    chainBytes vol state.data (chain ++ more) pos = chainBytes vol before.data chain pos
  zeros : zeroFill = true → ∀ pos, fd.fatFileSize ≤ pos →
    chainBytes vol state.data (chain ++ more) pos = 0
  counted : Counted vol before → Counted vol state

/-- The bytes of a chain with the clusters of a scan behind it. -/
theorem Taken.bytes {before st : Clusters} {zeroFill : Bool} {taken : List Nat}
    (took : Taken vol before zeroFill taken st) (sized : vol.Sized)
    (apart : ∀ cln ∈ chain, cln ∉ taken) :
    (∀ pos, pos < chain.length * vol.bpc →
      chainBytes vol st.data (chain ++ taken) pos = chainBytes vol before.data chain pos) ∧
    (zeroFill = true → ∀ pos, chain.length * vol.bpc ≤ pos →
      chainBytes vol st.data (chain ++ taken) pos = 0) := by
  constructor
  · intro pos inside
    have index : pos / vol.bpc < chain.length := Nat.div_lt_of_lt_mul (by rwa [Nat.mul_comm])
    rw [chainBytes, chainBytes, List.getElem?_append_left index, List.getElem?_eq_getElem index]
    dsimp only
    rw [took.data, if_neg fun both => apart _ (List.getElem_mem index) both.2]
  · intro zeroed pos behind
    have index : chain.length ≤ pos / vol.bpc := (Nat.le_div_iff_mul_le sized.bpc_pos).mpr behind
    rw [chainBytes, List.getElem?_append_right index]
    cases found : taken[pos / vol.bpc - chain.length]? with
    | none => rfl
    | some cln =>
      dsimp only
      rw [took.data, if_pos ⟨zeroed, List.mem_of_getElem? found⟩]

/-- Free clusters become the end of a file, or there are none. -/
theorem addClusters_spec (ready : Ready fs) (holds : Holds fs.vol fs.table fd chain)
    {zeroFill : Bool} {len need remain : Nat}
    (longer : chain.length * fs.vol.bpc < len) (word : len < 2 ^ 32)
    (needed : chain.length + need = clustersOf fs.vol len)
    (exact : fd.fatFileSize + remain = chain.length * fs.vol.bpc) (zeros : zeroFill = true → ∀ pos,
      fd.fatFileSize ≤ pos → chainBytes fs.vol fs.data chain pos = 0) (clear : 0 < freeCount fs.vol
      fs.table → ∀ cln ∈ chain.getLast?, Clear fs.vol.type (fs.table cln)) :
    ∃ after st, Becomes fs after st ∧ (freeCount fs.vol fs.table = 0 ∧ remain = 0 ∧
          addClusters fs fd zeroFill len remain (len - chain.length * fs.vol.bpc) =
            (.error .enospc, after, fd) ∧ st.table = fs.table ∧ st.data = fs.data ∧
          (Counted fs.vol fs.clusters → Counted fs.vol st) ∨
        ∃ fd' more, addClusters fs fd zeroFill len remain
              (len - chain.length * fs.vol.bpc) = (.ok fd'.fatFileSize, after, fd') ∧
          Extended fs.vol fs.clusters fd chain zeroFill st fd' more ∧
          more.length = min need (freeCount fs.vol fs.table) ∧ fd'.fatFileSize ≤ len ∧
          fd.fatFileSize ≤ fd'.fatFileSize ∧ fd'.fatFileSize =
            reached fs.vol len chain.length need (freeCount fs.vol fs.table) ∧
          (freeCount fs.vol fs.table = 0 → remain ≠ 0)) := by
  obtain ⟨middle, taken, last, st, done, becomes, took, length⟩ :=
    scanFatForFreeClusters_spec ready need zeroFill
  have apart : ∀ cln ∈ chain, cln ∉ taken := fun cln mem inside =>
    holds.entry_ne mem (took.free cln inside)
  have table : middle.table = st.table := congrArg Clusters.table becomes.clusters
  have holdsMiddle : Holds fs.vol middle.table fd chain := by
    rw [table]
    exact holds.congr fun cln mem => took.table cln (apart cln mem)
  have counted := took.counted ready.toLaid
  obtain ⟨bytes, cleared⟩ := took.bytes ready.toSized apart
  have amount : (len - chain.length * fs.vol.bpc - 1) / 2 ^ fs.vol.bpcLog2 + 1 = need := by
    have total := clsToAdd ready.toSized longer
    omega
  have vol : middle.vol = fs.vol := becomes.vol
  rw [addClusters]
  rw [amount, done]
  dsimp only
  have added : (scanOf taken last).clsAdded = taken.length := rfl
  have least : 0 < need := by
    have lower := (clustersOf_spec ready.toSized len).1
    by_contra none
    rw [← needed, Nat.eq_zero_of_not_pos none, Nat.add_zero] at lower
    omega
  rw [added, vol]
  by_cases none : taken.length = 0 ∧ remain = 0
  · rw [if_pos none]
    obtain rfl := List.eq_nil_of_length_eq_zero none.1
    refine ⟨middle, _, becomes, Or.inl ⟨by rw [List.length_nil] at length; omega, none.2, rfl, ?_, ?_,
      counted⟩⟩
    · exact funext fun cln => took.table cln not_mem_nil
    · exact funext fun cln => (took.data cln).trans (if_neg fun both => by cases both.2)
  · rw [if_neg none]
    generalize result : (if need ≠ taken.length then minus len
      (min (len - chain.length * fs.vol.bpc)
        (minus need taken.length * 2 ^ fs.vol.bpcLog2 % 2 ^ 32)) else len) = total
    have nonempty : 0 < chain.length + taken.length := by
      by_contra nothing
      have empty : chain.length = 0 := by omega
      rw [empty, Nat.zero_mul] at exact
      omega
    obtain ⟨clusters, lower, most, partly, all⟩ :=
      extended_length ready.toSized longer word needed (by omega) nonempty result.symm
    rw [length, reached_min] at all
    by_cases more : taken.length = 0
    · obtain rfl := List.eq_nil_of_length_eq_zero more
      refine ⟨middle, _, becomes, Or.inr ⟨{ fd with fatFileSize := total }, [], rfl, ?_, length, most,
        Nat.le_trans (by omega) lower, all, fun _ whole => none ⟨more, whole⟩⟩⟩
      refine ⟨⟨rfl, rfl, rfl, rfl, rfl⟩, ?_, by simp, fun cln _ _ => took.table cln not_mem_nil,
        fun cln _ _ => (took.data cln).trans (if_neg fun both => by cases both.2), ?_, ?_, counted⟩
      · rw [append_nil]
        have known : fd.fatFileSize ≠ 0 := by
          intro empty
          rw [holds.empty ready.toSized empty] at nonempty
          exact absurd nonempty (by decide)
        exact { holds.congr fun cln _ => took.table cln not_mem_nil with
          word := by change total < 2 ^ 32; omega
          clusters := clusters.symm
          first := fun _ => holds.first known
          place := fun _ => holds.place known }
      · exact fun pos inside => bytes pos (by omega)
      · intro zeroed pos behind
        by_cases inside : pos < chain.length * fs.vol.bpc
        · exact (bytes pos inside).trans (zeros zeroed pos behind)
        · exact cleared zeroed pos (Nat.not_lt.mp inside)
    · obtain ⟨head, rest, rfl⟩ := List.exists_cons_of_length_pos (Nat.pos_of_ne_zero more)
      have clearMiddle : ∀ cln ∈ chain.getLast?, Clear middle.vol.type (middle.table cln) := by
        intro cln mem
        rw [vol, table, took.table cln (apart cln (List.mem_of_mem_getLast? mem))]
        exact clear (by rw [List.length_cons] at length; omega) cln mem
      obtain ⟨after, fd', links, linked, joined, chained, others, kin, first, place⟩ :=
        @linkChain_spec middle fd chain becomes.ready (vol.symm ▸ holdsMiddle) (head :: rest) head
          (by rw [vol, table]; exact took.chained) rfl apart clearMiddle
      have scanned : (scanOf (head :: rest) last).chain = head := rfl
      have found : (head :: rest).getLast? = some ((head :: rest).getLastD undefinedValue) := by rfl
      rw [if_pos (by rw [List.length_cons]; omega), scanned, linked]
      dsimp only
      rw [if_neg (by rw [kin.directory, holds.regular]; decide)]
      rw [becomes.clusters] at joined
      refine ⟨after, _, becomes.trans joined, Or.inr ⟨{ fd' with
        map := { fd'.map with lastCln := (scanOf (head :: rest) last).saveCln }, fatFileSize := total },
          head :: rest, rfl, ?_, length, most, Nat.le_trans (by omega) lower, all,
          fun full => absurd (full ▸ length) (by rw [Nat.min_zero]; exact more)⟩⟩
      have entries : ∀ cln, cln ∉ chain → cln ∉ head :: rest → links cln = fs.clusters.table cln := by
        intro cln outside fresh
        rw [others cln outside, table]
        exact took.table cln fresh
      refine ⟨{ kin with }, ?_, took.free,
        entries,
        fun cln _ fresh => (took.data cln).trans (if_neg fun both => fresh both.2),
        fun pos inside => bytes pos (by omega), ?_, ?_⟩
      · rw [vol] at chained
        exact {
          toChained := chained
          plain := kin.ofRootDir.trans holds.plain
          regular := kin.directory.trans holds.regular
          limit := kin.sizeLimit.trans holds.limit
          word := by change total < 2 ^ 32; omega
          clusters := by rw [List.length_append]; exact clusters.symm
          first := fun _ => first
          place := fun _ => place
          lastCln := fun _ => by
            rw [List.getLast?_append, found]
            rfl }
      · intro zeroed pos behind
        by_cases inside : pos < chain.length * fs.vol.bpc
        · exact (bytes pos inside).trans (zeros zeroed pos behind)
        · exact cleared zeroed pos (Nat.not_lt.mp inside)
      · intro right known
        refine (counted right known).trans (freeCount_congr fun cln => ?_).symm
        by_cases mem : cln ∈ chain
        · have old : st.table cln = fs.table cln := took.table cln (apart cln mem)
          have used := holds.entry_ne mem
          rw [← old] at used
          exact iff_of_false (chained.entry_ne (List.mem_append_left _ mem)) used
        · exact iff_of_eq (congrArg (· = genfatFree) ((others cln mem).trans (congrFun table cln)))

theorem chainBytes_behind (sized : vol.Sized) (data : Nat → Nat → UInt8) {pos : Nat}
    (behind : chain.length * vol.bpc ≤ pos) : chainBytes vol data chain pos = 0 := by
  have index : chain.length ≤ pos / vol.bpc := (Nat.le_div_iff_mul_le sized.bpc_pos).mpr behind
  rw [chainBytes, List.getElem?_eq_none index]

/-- A file whose last cluster is ready for the extension. -/
structure Prepared (vol : Volume) (before : Clusters) (fd : FileFd) (chain : List Nat)
    (zeroFill : Bool) (data : Nat → Nat → UInt8) (after : FileFd) : Prop where
  kin : Kin fd after
  size : after.fatFileSize = fd.fatFileSize
  holds : Holds vol before.table after chain
  others : ∀ cln, cln ∉ chain → data cln = before.data cln
  bytes : ∀ pos, pos < fd.fatFileSize →
    chainBytes vol data chain pos = chainBytes vol before.data chain pos
  zeros : zeroFill = true → ∀ pos, fd.fatFileSize ≤ pos → chainBytes vol data chain pos = 0

/-- The rest of the last cluster is cleared if this is asked for. -/
theorem prepare_spec (ready : Ready fs) (holds : Holds fs.vol fs.table fd chain) (zeroFill : Bool)
    {remain : Nat} (exact : fd.fatFileSize + remain = chain.length * fs.vol.bpc) :
    ∃ after fd' data,
      (if zeroFill = true ∧ remain > 0 then clearRest fs fd remain else (.ok (), fs, fd)) =
        (.ok (), after, fd') ∧
      Becomes fs after { fs.clusters with data := data } ∧
      Prepared fs.vol fs.clusters fd chain zeroFill data fd' ∧
      (remain = 0 → data = fs.data ∧ fd' = fd) := by
  split
  case isTrue asked =>
    obtain ⟨after, fileCln, diskCln, data, cleared, becomes, written, sought⟩ :=
      clearRest_spec ready holds exact asked.2
    refine ⟨after, _, data, cleared, becomes, ⟨seek_kin _ _ _, rfl, sought, written.others, ?_, ?_⟩,
      by omega⟩
    · intro pos inside
      rw [written.bytes, put_outside (Or.inl inside)]
      rfl
    · intro _ pos behind
      rw [written.bytes]
      by_cases within : pos < fd.fatFileSize + remain
      · obtain ⟨index, rfl⟩ : ∃ index, pos = fd.fatFileSize + index := ⟨pos - fd.fatFileSize, by omega⟩
        rw [put_inside (by rw [length_replicate]; omega), List.getElem_replicate]
      · rw [put_outside (by rw [length_replicate]; omega)]
        exact chainBytes_behind ready.toSized _ (by omega)
  case isFalse unasked =>
    refine ⟨fs, fd, fs.data, rfl, becomes_self ready, ⟨⟨rfl, rfl, rfl, rfl, rfl⟩, rfl, holds,
      fun _ _ => rfl, fun _ _ => rfl, ?_⟩, fun _ => ⟨rfl, rfl⟩⟩
    intro zeroed pos behind
    have none : ¬ remain > 0 := fun some => unasked ⟨zeroed, some⟩
    exact chainBytes_behind ready.toSized _ (by omega)

theorem Prepared.extended {before st : Clusters} {zeroFill : Bool} {data : Nat → Nat → UInt8}
    {middle after : FileFd} {more : List Nat}
    (prepared : Prepared vol before fd chain zeroFill data middle)
    (extended : Extended vol { before with data := data } middle chain zeroFill st after more) :
    Extended vol before fd chain zeroFill st after more where
  kin := prepared.kin.trans extended.kin
  holds := extended.holds
  free := extended.free
  table := extended.table
  data := fun cln outside fresh => (extended.data cln outside fresh).trans (prepared.others cln outside)
  bytes := fun pos inside =>
    (extended.bytes pos (prepared.size.symm ▸ inside)).trans (prepared.bytes pos inside)
  zeros := fun zeroed pos behind => extended.zeros zeroed pos (prepared.size.symm ▸ behind)
  counted := extended.counted

/-- A file is extended, as far as there are free clusters. -/
theorem fatFileExtend_spec (ready : Ready fs) (holds : Holds fs.vol fs.table fd chain)
    (zeroFill : Bool) {len need : Nat} (longer : fd.fatFileSize < len)
    (word : len < 2 ^ 32) (needed : chain.length + need = clustersOf fs.vol len) (clear
      : 0 < need → 0 < freeCount fs.vol fs.table → ∀ cln ∈ chain.getLast?, Clear fs.vol.type
      (fs.table cln)) :
    ∃ after st, Becomes fs after st ∧ (need ≠ 0 ∧ freeCount fs.vol fs.table = 0 ∧
          fd.fatFileSize = chain.length * fs.vol.bpc ∧
          fatFileExtend fs fd zeroFill len = (.error .enospc, after, fd) ∧
          st.table = fs.table ∧ st.data = fs.data ∧
          (Counted fs.vol fs.clusters → Counted fs.vol st) ∨
        ∃ length fd' more, fatFileExtend fs fd zeroFill len = (.ok length, after, fd') ∧
          Extended fs.vol fs.clusters fd chain zeroFill st fd' more ∧
          more.length = min need (freeCount fs.vol fs.table) ∧ fd.fatFileSize ≤ length ∧
          length ≤ len ∧
          length = reached fs.vol len chain.length need (freeCount fs.vol fs.table) ∧
          fd'.fatFileSize = (if need = 0 then fd.fatFileSize else length) ∧
          (need ≠ 0 → freeCount fs.vol fs.table = 0 → fd.fatFileSize < chain.length * fs.vol.bpc)) := by
  obtain ⟨lower, upper⟩ := clustersOf_spec ready.toSized fd.fatFileSize
  rw [← holds.clusters] at lower upper
  obtain ⟨newLower, newUpper⟩ := clustersOf_spec ready.toSized len
  have remain : bytesRemain fs.vol fd.fatFileSize = chain.length * fs.vol.bpc - fd.fatFileSize := by
    rw [bytesRemain_eq ready.toSized holds.word, holds.clusters]
  obtain ⟨middle, fd1, data, cleared, becomes, prepared, unused⟩ :=
    @prepare_spec fs fd chain ready holds zeroFill (chain.length * fs.vol.bpc - fd.fatFileSize)
      (by omega)
  have plain : fd.isFat12OrFat16RootDir fs.vol.type = false := by
    rw [isFat12OrFat16RootDir, holds.plain, Bool.false_and]
  have bytes2add : len - fd.fatFileSize - (chain.length * fs.vol.bpc - fd.fatFileSize) =
      len - chain.length * fs.vol.bpc := by omega
  rw [fatFileExtend, if_neg (by omega), plain, if_neg (by decide)]
  dsimp only
  rw [remain, bytes2add, cleared]
  dsimp only
  rcases Nat.eq_zero_or_pos need with none | some
  · rw [none, Nat.add_zero] at needed
    have enough : len - chain.length * fs.vol.bpc = 0 := by
      rw [← needed] at newLower
      omega
    rw [if_pos enough]
    refine ⟨middle, _, becomes, Or.inr ⟨len, fd1, [], rfl, ?_, by simp [none], by omega, le_refl _,
      (by rw [reached, if_pos (by omega)]), prepared.size.trans (if_pos none).symm,
      fun some => absurd none some⟩⟩
    exact {
      kin := prepared.kin
      holds := by
        rw [append_nil]
        exact prepared.holds
      free := by simp
      table := fun _ _ _ => rfl
      data := fun cln outside _ => prepared.others cln outside
      bytes := by
        rw [append_nil]
        exact prepared.bytes
      zeros := by
        rw [append_nil]
        exact prepared.zeros
      counted := id }
  · have longer' : chain.length * fs.vol.bpc < len := by
      by_contra short
      have most := clustersOf_le ready.toSized (Nat.not_lt.mp short)
      omega
    have table : middle.table = fs.table := congrArg Clusters.table becomes.clusters
    have dataM : middle.data = data := congrArg Clusters.data becomes.clusters
    have vol : middle.vol = fs.vol := becomes.vol
    obtain ⟨after, st, finished, outcome⟩ := @addClusters_spec middle fd1 chain becomes.ready
      (by rw [vol, table]; exact prepared.holds) zeroFill len need
      (chain.length * fs.vol.bpc - fd.fatFileSize) (by rw [vol]; exact longer') word
      (by rw [vol]; exact needed) (by rw [vol, prepared.size]; omega)
      (by rw [vol, dataM, prepared.size]; exact prepared.zeros)
      (by rw [vol, table]; exact clear some)
    rw [becomes.clusters, vol, table, dataM] at outcome
    rw [if_neg (by omega)]
    refine ⟨after, st, becomes.trans finished, ?_⟩
    rcases outcome with ⟨full, whole, failed, entries, bytes, counted⟩ |
      ⟨fd', more, done, extended, length, most, least, all, partly⟩
    · obtain ⟨same, rfl⟩ := unused whole
      exact Or.inl ⟨by omega, full, by omega, failed, entries, bytes.trans same, counted⟩
    · rw [prepared.size] at least
      exact Or.inr ⟨_, fd', more, done, prepared.extended extended, length, least, most, all,
        (if_neg (by omega)).symm, fun _ full => by have rest := partly full; omega⟩

end Rtems.Dosfs
