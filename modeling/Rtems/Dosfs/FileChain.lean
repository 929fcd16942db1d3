import Rtems.Dosfs.Chains

/-!
# The chain of a file

A regular file has a chain with just the clusters that its size needs. The map of its descriptor
names one cluster of the chain. The bytes of the clusters in the order of the chain are the contents
of the file, and more bytes up to the end of the last cluster.
-/

namespace Rtems.Dosfs

open ByteRange FsInfo FileFd Links

/-- The count of the clusters that a size needs. -/
def clustersOf (vol : Volume) (size : Nat) : Nat := (size + (vol.bpc - 1)) / vol.bpc

/-- A regular file with its chain. -/
structure Holds (vol : Volume) (table : Nat → Nat) (fd : FileFd) (chain : List Nat) : Prop
    extends Chained vol table chain where
  plain : fd.ofRootDir = false
  regular : fd.directory = false
  limit : fd.sizeLimit = msdosMaxFileSize
  word : fd.fatFileSize < 2 ^ 32
  clusters : chain.length = clustersOf vol fd.fatFileSize
  first : fd.fatFileSize ≠ 0 → chain[0]? = some fd.cln
  place : fd.fatFileSize ≠ 0 → chain[fd.map.fileCln]? = some fd.map.diskCln
  lastCln : fd.map.lastCln ≠ undefinedValue → chain.getLast? = some fd.map.lastCln

/-- The bytes of the clusters of a chain. -/
def chainBytes (vol : Volume) (data : Nat → Nat → UInt8) (chain : List Nat) : Content := fun pos =>
  match chain[pos / vol.bpc]? with
  | some cln => data cln (pos % vol.bpc)
  | none => 0

/-- The descriptor after its map is set to a cluster. -/
def FileFd.seek (fd : FileFd) (fileCln diskCln : Nat) : FileFd :=
  { fd with map := { fd.map with fileCln := fileCln, diskCln := diskCln } }

variable {vol : Volume} {device : Device} {fs : FsInfo} {fd : FileFd} {chain : List Nat}

section

variable (sized : vol.Sized)
include sized

theorem Volume.Sized.bpc_pos : 0 < vol.bpc := by
  rw [sized.bpc]
  exact Nat.two_pow_pos _

theorem Volume.Sized.two_le_bpc : 2 ≤ vol.bpc := by
  have least := sized.single
  have cluster := sized.cluster
  rw [sized.bpc]
  exact Nat.pow_le_pow_right (by decide : 0 < 2) (by omega : 1 ≤ vol.bpcLog2)

theorem Volume.Sized.bpc_lt : vol.bpc ≤ 2 ^ 19 := by
  rw [sized.bpc]
  exact Nat.pow_le_pow_right (by decide) sized.small

/-- The clusters hold the size, and no cluster is unused. -/
theorem clustersOf_spec (size : Nat) :
    size ≤ clustersOf vol size * vol.bpc ∧ clustersOf vol size * vol.bpc < size + vol.bpc := by
  have pos := sized.bpc_pos
  have split := Nat.div_add_mod' (size + (vol.bpc - 1)) vol.bpc
  have rest := Nat.mod_lt (size + (vol.bpc - 1)) pos
  rw [clustersOf]
  omega

/-- The count of the clusters is the only one that fits. -/
theorem clustersOf_eq {size count : Nat} (least : size ≤ count * vol.bpc)
    (most : count * vol.bpc < size + vol.bpc) : clustersOf vol size = count := by
  obtain ⟨lower, upper⟩ := clustersOf_spec sized size
  rcases Nat.lt_trichotomy (clustersOf vol size) count with less | same | more
  · have product := Nat.mul_le_mul_right vol.bpc (Nat.succ_le_of_lt less)
    rw [Nat.succ_mul] at product
    omega
  · exact same
  · have product := Nat.mul_le_mul_right vol.bpc (Nat.succ_le_of_lt more)
    rw [Nat.succ_mul] at product
    omega

end

variable {table : Nat → Nat}

theorem Holds.congr {after : Nat → Nat} (holds : Holds vol table fd chain)
    (same : ∀ cln ∈ chain, after cln = table cln) : Holds vol after fd chain :=
  { holds with toChained := holds.toChained.congr same }

theorem Holds.seek (holds : Holds vol table fd chain) {fileCln diskCln : Nat}
    (there : chain[fileCln]? = some diskCln) : Holds vol table (fd.seek fileCln diskCln) chain :=
  { holds with place := fun _ => there }

theorem FileFd.seek_self (fd : FileFd) : fd.seek fd.map.fileCln fd.map.diskCln = fd := rfl

/-- A file with a cluster is not empty. -/
theorem Holds.size_ne (sized : vol.Sized) (holds : Holds vol table fd chain) {index cln : Nat}
    (there : chain[index]? = some cln) : fd.fatFileSize ≠ 0 := by
  intro empty
  have inside := (List.getElem?_eq_some_iff.mp there).1
  rw [holds.clusters, empty, clustersOf_eq sized (by omega : 0 ≤ 0 * vol.bpc)
    (by have pos := sized.bpc_pos; omega)] at inside
  omega

/-- The map is set to a cluster of the file. -/
theorem fatFileLseek_spec (ready : Ready fs) (holds : Holds fs.vol fs.table fd chain)
    {fileCln target : Nat} (there : chain[fileCln]? = some target) :
    ∃ after, fatFileLseek fs fd fileCln = (.ok target, after, fd.seek fileCln target) ∧
      Becomes fs after fs.clusters := by
  have size := holds.size_ne ready.toSized there
  have place := holds.place size
  rw [fatFileLseek]
  by_cases here : fileCln = fd.map.fileCln
  · rw [if_pos here]
    rw [here, place] at there
    cases there
    exact ⟨fs, by rw [here, FileFd.seek_self], becomes_self ready⟩
  · rw [if_neg here]
    by_cases behind : fileCln > fd.map.fileCln
    · obtain ⟨after, followed, quiet⟩ := @skipClusters_spec fs fd.map.diskCln chain ready
        holds.toChained (fileCln - fd.map.fileCln) fd.map.fileCln target place
        (by rwa [Nat.add_sub_cancel' (Nat.le_of_lt behind)])
      rw [if_pos behind]
      dsimp only
      rw [followed]
      exact ⟨after, rfl, quiet⟩
    · obtain ⟨after, followed, quiet⟩ := @skipClusters_spec fs fd.cln chain ready
        holds.toChained fileCln 0 target (holds.first size) (by rwa [Nat.zero_add])
      rw [if_neg behind]
      dsimp only
      rw [followed]
      exact ⟨after, rfl, quiet⟩

theorem chainBytes_cluster (sized : vol.Sized) {data : Nat → Nat → UInt8} {index cln ofs : Nat}
    (there : chain[index]? = some cln) (inside : ofs < vol.bpc) :
    chainBytes vol data chain (index * vol.bpc + ofs) = data cln ofs := by
  have pos := sized.bpc_pos
  have quotient : (index * vol.bpc + ofs) / vol.bpc = index := by
    rw [Nat.add_comm, Nat.add_mul_div_right _ _ pos, Nat.div_eq_of_lt inside, Nat.zero_add]
  have rest : (index * vol.bpc + ofs) % vol.bpc = ofs := by
    rw [Nat.add_comm, Nat.add_mul_mod_self_right, Nat.mod_eq_of_lt inside]
  rw [chainBytes, quotient, there, rest]

theorem get_chainBytes (sized : vol.Sized) {data : Nat → Nat → UInt8} {index cln ofs count : Nat}
    (there : chain[index]? = some cln) (inside : ofs + count ≤ vol.bpc) :
    get (chainBytes vol data chain) (index * vol.bpc + ofs) count = get (data cln) ofs count := by
  apply List.map_congr_left
  intro place member
  have less := List.mem_range.mp member
  rw [Nat.add_assoc]
  exact chainBytes_cluster sized there (by omega)

theorem chainBytes_write (sized : vol.Sized) {state : Clusters} {index cln ofs : Nat}
    {bytes : List UInt8} (nodup : chain.Nodup) (there : chain[index]? = some cln)
    (inside : ofs + bytes.length ≤ vol.bpc) :
    chainBytes vol (state.write cln ofs bytes).data chain =
      put (chainBytes vol state.data chain) (index * vol.bpc + ofs) bytes := by
  have positive := sized.bpc_pos
  funext pos
  have split := Nat.div_add_mod' pos vol.bpc
  have rest := Nat.mod_lt pos positive
  by_cases here : pos / vol.bpc = index
  · have written : chainBytes vol (state.write cln ofs bytes).data chain pos =
        put (state.data cln) ofs bytes (pos % vol.bpc) := by
      rw [chainBytes, here, there]
      exact congrFun (state.write_self cln ofs bytes) _
    have old : chainBytes vol state.data chain pos = state.data cln (pos % vol.bpc) := by
      rw [chainBytes, here, there]
    rw [here] at split
    rw [written]
    by_cases within : ofs ≤ pos % vol.bpc ∧ pos % vol.bpc < ofs + bytes.length
    · obtain ⟨place, equal⟩ : ∃ place, pos % vol.bpc = ofs + place :=
        ⟨pos % vol.bpc - ofs, by omega⟩
      obtain rfl : pos = index * vol.bpc + ofs + place := by omega
      rw [equal, put_inside (by omega), put_inside (by omega)]
    · rw [put_outside (by omega), put_outside (by omega), old]
  · have unchanged : chainBytes vol (state.write cln ofs bytes).data chain pos =
        chainBytes vol state.data chain pos := by
      rw [chainBytes, chainBytes]
      cases other : chain[pos / vol.bpc]? with
      | none => rfl
      | some cln' =>
        have distinct : cln' ≠ cln := by
          rintro rfl
          exact here ((List.getElem?_inj (List.getElem?_eq_some_iff.mp other).1 nodup).mp
            (other.trans there.symm))
        exact congrFun (state.write_of_ne distinct ofs bytes) _
    rw [unchanged, put_outside]
    rcases Nat.lt_or_gt_of_ne here with less | more
    · have product := Nat.mul_le_mul_right vol.bpc (Nat.succ_le_of_lt less)
      rw [Nat.succ_mul] at product
      omega
    · have product := Nat.mul_le_mul_right vol.bpc (Nat.succ_le_of_lt more)
      rw [Nat.succ_mul] at product
      omega

/-- The part of a range in its first cluster, and the place of the rest. -/
theorem next_cluster (sized : vol.Sized) {index ofs count : Nat} (inside : ofs < vol.bpc)
    (more : count - min count (vol.bpc - ofs) ≠ 0) :
    min count (vol.bpc - ofs) = vol.bpc - ofs ∧
      (index + 1) * vol.bpc = index * vol.bpc + ofs + (vol.bpc - ofs) ∧
      index + (ofs + count - 1) / vol.bpc =
        index + 1 + (0 + (count - min count (vol.bpc - ofs)) - 1) / vol.bpc := by
  have pos := sized.bpc_pos
  have part : min count (vol.bpc - ofs) = vol.bpc - ofs := by omega
  refine ⟨part, by rw [Nat.succ_mul]; omega, ?_⟩
  have whole : ofs + count - 1 = 0 + (count - min count (vol.bpc - ofs)) - 1 + vol.bpc := by omega
  rw [whole, Nat.add_div_right _ pos]
  omega

/-- The loop reads the bytes of the chain, and remembers the last cluster. -/
theorem readLoop_spec (ready : Ready fs) (chained : Chained fs.vol fs.table chain)
    {fuel index cln ofs count : Nat} (save : Nat) (enough : count ≤ fuel) (inside : ofs < fs.vol.bpc)
    (there : count ≠ 0 → chain[index]? = some cln)
    (bounded : count ≠ 0 → index * fs.vol.bpc + ofs + count ≤ chain.length * fs.vol.bpc) :
    ∃ after last, readLoop fuel fs cln save ofs count =
        (.ok (get (chainBytes fs.vol fs.data chain) (index * fs.vol.bpc + ofs) count, last), after) ∧
      Becomes fs after fs.clusters ∧
      (count ≠ 0 → chain[index + (ofs + count - 1) / fs.vol.bpc]? = some last) ∧
      (count = 0 → last = save) := by
  induction fuel generalizing fs index cln ofs count save with
  | zero =>
    obtain rfl : count = 0 := by omega
    exact ⟨fs, save, rfl, becomes_self ready, fun some => absurd rfl some, fun _ => rfl⟩
  | succ fuel ih =>
    rw [readLoop]
    by_cases none : count = 0
    · subst none
      exact ⟨fs, save, rfl, becomes_self ready, fun some => absurd rfl some, fun _ => rfl⟩
    · rw [if_neg none]
      have here := there none
      have valid := chained.valid cln (List.mem_of_getElem? here)
      obtain ⟨middle, linked, quiet⟩ := getFatCluster_clusters ready valid
      obtain ⟨between, read, still⟩ := @blockRead_clusters middle cln quiet.ready
        (quiet.vol.symm ▸ valid) ofs (min count (fs.vol.bpc - ofs)) (by omega)
        (by rw [quiet.vol]; omega)
      rw [quiet.clusters] at read still
      have same := quiet.trans still
      rw [quiet.vol] at read
      have data : between.data = fs.data := congrArg Clusters.data same.clusters
      have table : between.table = fs.table := congrArg Clusters.table same.clusters
      have next : count - min count (fs.vol.bpc - ofs) ≠ 0 →
          chain[index + 1]? = some (fs.clusters.table cln) := by
        intro more
        obtain ⟨part, place, _⟩ := @next_cluster fs.vol ready.toSized index ofs count inside more
        have less : index + 1 < chain.length := by
          by_contra far
          have product := Nat.mul_le_mul_right fs.vol.bpc (Nat.not_lt.mp far)
          omega
        rw [List.getElem?_eq_getElem less]
        exact congrArg some (chained.step here (List.getElem?_eq_getElem less)).symm
      have rest := @ih between same.ready
        (by rw [same.vol, table]; exact chained) (index + 1) (fs.clusters.table cln) 0
        (count - min count (fs.vol.bpc - ofs)) cln (by omega)
        (by rw [same.vol]; exact ready.bpc_pos) next
        (by
          intro more
          obtain ⟨part, place, _⟩ := @next_cluster fs.vol ready.toSized index ofs count inside more
          rw [same.vol, place]
          omega)
      obtain ⟨after, last, done, finished, final, kept⟩ := rest
      rw [same.vol, data] at done
      rw [same.vol] at final
      rw [linked]
      dsimp only
      rw [quiet.vol, read]
      dsimp only
      rw [done]
      refine ⟨after, last, ?_, ?_, fun _ => ?_, fun empty => absurd empty none⟩
      · have counts : count = min count (fs.vol.bpc - ofs) + (count - min count (fs.vol.bpc - ofs)) :=
          by omega
        have split := @get_add _ (chainBytes fs.vol fs.data chain) (index * fs.vol.bpc + ofs)
          (min count (fs.vol.bpc - ofs)) (count - min count (fs.vol.bpc - ofs))
        have first := @get_chainBytes fs.vol chain ready.toSized fs.data index cln ofs
          (min count (fs.vol.bpc - ofs)) here (by omega)
        rw [← counts, first] at split
        rw [split]
        by_cases more : count - min count (fs.vol.bpc - ofs) = 0
        · rw [more]
          rfl
        · obtain ⟨part, place, _⟩ := @next_cluster fs.vol ready.toSized index ofs count inside more
          rw [Nat.add_zero, place, part]
          rfl
      · rw [same.clusters] at finished
        exact same.trans finished
      · by_cases more : count - min count (fs.vol.bpc - ofs) = 0
        · rw [kept more, Nat.div_eq_of_lt (by omega), Nat.add_zero]
          exact here
        · rw [(@next_cluster fs.vol ready.toSized index ofs count inside more).2.2]
          exact final more

theorem position (sized : vol.Sized) (start : Nat) :
    start / 2 ^ vol.bpcLog2 * vol.bpc + start % vol.bpc = start ∧ start % vol.bpc < vol.bpc := by
  rw [← sized.bpc]
  exact ⟨Nat.div_add_mod' start vol.bpc, Nat.mod_lt _ sized.bpc_pos⟩

theorem last_cluster (sized : vol.Sized) {start count : Nat} (some : 0 < count)
    (word : start + count < 2 ^ 32) :
    (start / 2 ^ vol.bpcLog2 + minus (start % vol.bpc + count) 1 / 2 ^ vol.bpcLog2) % 2 ^ 32 =
      start / 2 ^ vol.bpcLog2 + (start % vol.bpc + count - 1) / vol.bpc := by
  obtain ⟨place, _⟩ := position sized start
  have difference : minus (start % vol.bpc + count) 1 = start % vol.bpc + count - 1 := by
    rw [minus]
    omega
  have pos := sized.bpc_pos
  have split : start + count - 1 =
      start % vol.bpc + count - 1 + start / 2 ^ vol.bpcLog2 * vol.bpc := by omega
  have whole : (start + count - 1) / vol.bpc =
      start / 2 ^ vol.bpcLog2 + (start % vol.bpc + count - 1) / vol.bpc := by
    rw [split, Nat.add_mul_div_right _ _ pos, Nat.add_comm]
  have bounded := Nat.div_le_self (start + count - 1) vol.bpc
  rw [difference, ← sized.bpc] at *
  exact Nat.mod_eq_of_lt (by omega)

theorem fatFileRead_spec (ready : Ready fs) (holds : Holds fs.vol fs.table fd chain)
    (start count : Nat) :
    ∃ after fileCln diskCln, fatFileRead fs fd start count =
        (.ok (get (chainBytes fs.vol fs.data chain) start (min count (fd.fatFileSize - start))), after,
          fd.seek fileCln diskCln) ∧
      Becomes fs after fs.clusters ∧ Holds fs.vol fs.table (fd.seek fileCln diskCln) chain := by
  rw [fatFileRead]
  by_cases none : count = 0
  · rw [if_pos none, none, Nat.zero_min]
    exact ⟨fs, _, _, rfl, becomes_self ready, holds⟩
  · rw [if_neg none]
    by_cases behind : start ≥ fd.fatFileSize
    · rw [if_pos behind, Nat.sub_eq_zero_of_le behind, Nat.min_zero]
      exact ⟨fs, _, _, rfl, becomes_self ready, holds⟩
    · rw [if_neg behind]
      have clipped : (if count > fd.fatFileSize ∨ start > fd.fatFileSize - count then
          fd.fatFileSize - start else count) = min count (fd.fatFileSize - start) := by
        split <;> omega
      have plain : fd.isFat12OrFat16RootDir fs.vol.type = false := by
        rw [isFat12OrFat16RootDir, holds.plain, Bool.false_and]
      obtain ⟨place, inside⟩ := position ready.toSized start
      have least := (clustersOf_spec ready.toSized fd.fatFileSize).1
      rw [← holds.clusters] at least
      have word := holds.word
      have less : start / 2 ^ fs.vol.bpcLog2 < chain.length := by
        by_contra far
        have product := Nat.mul_le_mul_right fs.vol.bpc (Nat.not_lt.mp far)
        omega
      have there := List.getElem?_eq_getElem less
      obtain ⟨middle, sought, quiet⟩ := fatFileLseek_spec ready holds there
      have data : middle.data = fs.data := congrArg Clusters.data quiet.clusters
      have table : middle.table = fs.table := congrArg Clusters.table quiet.clusters
      generalize amount : min count (fd.fatFileSize - start) = part
      obtain ⟨after, last, done, finished, final, _⟩ := @readLoop_spec middle chain quiet.ready
        (by rw [quiet.vol, table]; exact holds.toChained) part (start / 2 ^ fs.vol.bpcLog2)
        chain[start / 2 ^ fs.vol.bpcLog2] (start % fs.vol.bpc) part 0 (le_refl _)
        (by rw [quiet.vol]; exact inside) (fun _ => there) (by rw [quiet.vol]; omega)
      rw [quiet.vol, data, place] at done
      rw [quiet.vol] at final
      rw [clipped, plain, amount]
      dsimp only
      rw [if_neg (by decide), sought]
      dsimp only
      rw [done]
      dsimp only
      rw [(finished.vol.trans quiet.vol), last_cluster ready.toSized (by omega) (by omega)]
      rw [quiet.clusters] at finished
      refine ⟨after, _, _, rfl, quiet.trans finished, ?_⟩
      exact holds.seek (final (by omega))

/-- The data after bytes were written to a chain: nothing else changes. -/
structure Written (vol : Volume) (chain : List Nat) (before data : Nat → Nat → UInt8) (place : Nat)
    (bytes : List UInt8) : Prop where
  bytes : chainBytes vol data chain = put (chainBytes vol before chain) place bytes
  others : ∀ cln, cln ∉ chain → data cln = before cln

/-- The loop writes the bytes to the chain, and remembers the last cluster. -/
theorem writeLoop_spec (ready : Ready fs) (chained : Chained fs.vol fs.table chain)
    {fuel index cln ofs : Nat} {bytes : List UInt8} (save cmpltd : Nat) (nonempty : bytes.length ≠ 0)
    (enough : bytes.length ≤ fuel) (inside : ofs < fs.vol.bpc) (here : chain[index]? = some cln)
    (fits : index * fs.vol.bpc + ofs + bytes.length ≤ chain.length * fs.vol.bpc) :
    ∃ after last data, writeLoop fuel fs cln save ofs cmpltd bytes =
        (.ok (), cmpltd + bytes.length, last, after) ∧
      Becomes fs after { fs.clusters with data := data } ∧
      Written fs.vol chain fs.data data (index * fs.vol.bpc + ofs) bytes ∧
      chain[index + (ofs + bytes.length - 1) / fs.vol.bpc]? = some last := by
  induction fuel generalizing fs index cln ofs bytes save cmpltd with
  | zero => omega
  | succ fuel ih =>
    have valid := chained.valid cln (List.mem_of_getElem? here)
    have taken : (bytes.take (min bytes.length (fs.vol.bpc - ofs))).length =
        min bytes.length (fs.vol.bpc - ofs) := by simp
    obtain ⟨middle, wrote, written⟩ := @clusterWrite_clusters fs cln ready valid ofs
      (bytes.take (min bytes.length (fs.vol.bpc - ofs))) (by omega)
    rw [taken] at wrote
    have part : Written fs.vol chain fs.data
        (fs.clusters.write cln ofs (bytes.take (min bytes.length (fs.vol.bpc - ofs)))).data
        (index * fs.vol.bpc + ofs) (bytes.take (min bytes.length (fs.vol.bpc - ofs))) := by
      constructor
      · exact chainBytes_write ready.toSized chained.nodup here (by omega)
      · intro other outside
        apply Clusters.write_of_ne
        rintro rfl
        exact outside (List.mem_of_getElem? here)
    rw [writeLoop, if_neg nonempty]
    dsimp only
    rw [wrote]
    dsimp only
    rw [List.length_drop]
    by_cases more : bytes.length - min bytes.length (fs.vol.bpc - ofs) = 0
    · have all : min bytes.length (fs.vol.bpc - ofs) = bytes.length := by omega
      rw [all, List.take_length] at part written
      rw [if_neg (by omega), all]
      refine ⟨middle, cln, _, rfl, written, part, ?_⟩
      rw [Nat.div_eq_of_lt (by omega), Nat.add_zero]
      exact here
    · obtain ⟨whole, place, last⟩ :=
        @next_cluster fs.vol ready.toSized index ofs bytes.length inside more
      have less : index + 1 < chain.length := by
        by_contra far
        have product := Nat.mul_le_mul_right fs.vol.bpc (Nat.not_lt.mp far)
        omega
      have next := List.getElem?_eq_getElem less
      have table : middle.table = fs.table := congrArg Clusters.table written.clusters
      obtain ⟨between, linked, quiet⟩ :=
        getFatCluster_clusters written.ready (written.vol.symm ▸ valid)
      have link : middle.clusters.table cln = chain[index + 1] :=
        (congrFun table cln).trans (chained.step here next)
      have tableB : between.table = fs.table := (congrArg Clusters.table quiet.clusters).trans table
      have vol : between.vol = fs.vol := quiet.vol.trans written.vol
      have dataB : between.data =
          (fs.clusters.write cln ofs (bytes.take (min bytes.length (fs.vol.bpc - ofs)))).data :=
        congrArg Clusters.data (quiet.clusters.trans written.clusters)
      obtain ⟨after, final, data, done, finished, rest, reached⟩ := @ih between
        quiet.ready (by rw [vol, tableB]; exact chained) (index + 1) chain[index + 1] 0
        (bytes.drop (min bytes.length (fs.vol.bpc - ofs))) cln
        (cmpltd + min bytes.length (fs.vol.bpc - ofs)) (by rw [List.length_drop]; exact more)
        (by rw [List.length_drop]; omega) (by rw [vol]; exact ready.bpc_pos) next
        (by rw [vol, List.length_drop, place]; omega)
      rw [List.length_drop] at done reached
      rw [vol] at rest reached
      rw [dataB, Nat.add_zero, place] at rest
      rw [if_pos (by omega), linked, link]
      dsimp only
      rw [done]
      refine ⟨after, final, data, ?_, ?_, ?_, last.symm ▸ reached⟩
      · congr 2
        omega
      · rw [quiet.clusters, written.clusters] at finished
        exact (written.trans quiet).trans finished
      · constructor
        · have split := List.take_append_drop (min bytes.length (fs.vol.bpc - ofs)) bytes
          conv_rhs => rw [← split]
          rw [put_append, taken, rest.bytes, part.bytes, whole]
        · intro other outside
          rw [rest.others other outside, part.others other outside]

theorem fatFileWriteFat32OrNonRootDir_spec (ready : Ready fs)
    (holds : Holds fs.vol fs.table fd chain) {start : Nat} {bytes : List UInt8}
    (nonempty : bytes.length ≠ 0) (word : start + bytes.length < 2 ^ 32)
    (fits : start + bytes.length ≤ chain.length * fs.vol.bpc) :
    ∃ after fileCln diskCln data, fatFileWriteFat32OrNonRootDir fs fd start bytes =
        (.ok bytes.length, after, fd.seek fileCln diskCln) ∧
      Becomes fs after { fs.clusters with data := data } ∧
      Written fs.vol chain fs.data data start bytes ∧
      Holds fs.vol fs.table (fd.seek fileCln diskCln) chain := by
  obtain ⟨place, inside⟩ := position ready.toSized start
  have rest : start - start / 2 ^ fs.vol.bpcLog2 * 2 ^ fs.vol.bpcLog2 = start % fs.vol.bpc := by
    rw [← ready.toSized.bpc] at place ⊢
    omega
  have less : start / 2 ^ fs.vol.bpcLog2 < chain.length := by
    by_contra far
    have product := Nat.mul_le_mul_right fs.vol.bpc (Nat.not_lt.mp far)
    omega
  have there := List.getElem?_eq_getElem less
  obtain ⟨middle, sought, quiet⟩ := fatFileLseek_spec ready holds there
  have data : middle.data = fs.data := congrArg Clusters.data quiet.clusters
  have table : middle.table = fs.table := congrArg Clusters.table quiet.clusters
  obtain ⟨after, last, changed, done, finished, written, final⟩ := @writeLoop_spec middle chain
    quiet.ready (by rw [quiet.vol, table]; exact holds.toChained) bytes.length
    (start / 2 ^ fs.vol.bpcLog2) chain[start / 2 ^ fs.vol.bpcLog2] (start % fs.vol.bpc) bytes 0 0 nonempty
    (le_refl _) (by rw [quiet.vol]; exact inside) there (by rw [quiet.vol]; omega)
  rw [quiet.vol, data, place] at written
  rw [quiet.vol] at final
  rw [fatFileWriteFat32OrNonRootDir]
  rw [rest, sought]
  dsimp only
  rw [done]
  rw [finished.vol.trans quiet.vol, Nat.zero_add,
    last_cluster ready.toSized (Nat.pos_of_ne_zero nonempty) word]
  rw [quiet.clusters] at finished
  exact ⟨after, _, _, changed, rfl, quiet.trans finished, written, holds.seek final⟩

end Rtems.Dosfs
