import Mathlib.Data.List.Perm.Subperm
import Rtems.Dosfs.Entries
import Rtems.Dosfs.File
import Rtems.Library.Links

/-!
# Chains of clusters

The table links the clusters to chains. A chain is followed, it is given back, and a new one is
taken from the free clusters in the order of their numbers, beginning anywhere.
-/

namespace Rtems.Dosfs

open ByteRange FsInfo Links
open Function (update update_of_ne update_self)
open List (countP_cons length_append length_cons mem_append mem_cons mem_cons_self mem_range'_1
  mem_singleton nodup_cons range')

/-- A chain of clusters of the volume. -/
structure Chained (vol : Volume) (table : Nat → Nat) (chain : List Nat) : Prop
    extends Linked table (fun value => vol.type.isEoc value = true) chain where
  valid : ∀ cln ∈ chain, Valid vol cln

/-- An entry whose reserved bits are clear. -/
def Clear (type : FatType) (value : Nat) : Prop := type = .fat32 → value < 2 ^ 28

variable {vol : Volume} {device : Device} {fs : FsInfo} {cln : Nat} {chain : List Nat}

/-- The number of a cluster does not end a chain. -/
theorem Laid.not_isEoc (laid : Laid vol device) (valid : Valid vol cln) :
    vol.type.isEoc cln = false := by
  have numbers := laid.numbers
  have bounded := valid.2
  have small := Nat.mod_le cln (vol.type.mask + 1)
  rw [FatType.isEoc, decide_eq_false_iff_not]
  omega

variable {old : Nat}

theorem Laid.storedEntry_link (laid : Laid vol device) (valid : Valid vol cln)
    (clear : Clear vol.type old) : storedEntry vol.type old cln = cln := by
  have numbers := laid.numbers
  have bounded := valid.2
  cases type : vol.type with
  | fat12 | fat16 =>
    rw [type, FatType.eocVal] at numbers
    exact Nat.mod_eq_of_lt (by omega)
  | fat32 =>
    rw [type, FatType.eocVal] at numbers
    have small := clear type
    rw [storedEntry]
    omega

theorem storedEntry_eoc (type : FatType) (old : Nat) :
    type.isEoc (storedEntry type old genfatEoc) = true := by
  cases type with
  | fat12 => rfl
  | fat16 => rfl
  | fat32 =>
    rw [FatType.isEoc, decide_eq_true_eq, storedEntry, FatType.mask, FatType.eocVal, genfatEoc]
    omega

variable {type : FatType}

theorem storedEntry_clear (clear : Clear type old) (value : Nat) :
    Clear type (storedEntry type old value) := by
  rintro rfl
  have small := clear rfl
  rw [storedEntry]
  omega

theorem storedEntry_free (clear : Clear type old) :
    storedEntry type old genfatFree = genfatFree := by
  cases type with
  | fat12 => rfl
  | fat16 => rfl
  | fat32 =>
    have small := clear rfl
    rw [storedEntry, genfatFree]
    omega

variable {table : Nat → Nat}

variable {after : Nat → Nat}

theorem Chained.congr (chained : Chained vol table chain)
    (same : ∀ cln ∈ chain, after cln = table cln) : Chained vol after chain :=
  ⟨chained.toLinked.congr same, chained.valid⟩

theorem Chained.drop (chained : Chained vol table chain) (count : Nat) :
    Chained vol table (chain.drop count) :=
  ⟨chained.toLinked.drop count, fun cln mem => chained.valid cln (List.mem_of_mem_drop mem)⟩

/-- A link is the number of a cluster, so its reserved bits are clear. -/
theorem Chained.clear (laid : Laid vol device) (chained : Chained vol table chain) {index : Nat}
    {next : Nat} (here : chain[index]? = some cln) (there : chain[index + 1]? = some next) :
    Clear vol.type (table cln) := by
  have valid := chained.valid next (List.mem_of_getElem? there)
  have numbers := laid.numbers
  have bounded := valid.2
  intro type
  rw [type, FatType.eocVal] at numbers
  rw [chained.step here there]
  omega

theorem isEoc_ne {value : Nat} (ends : type.isEoc value = true) : value ≠ genfatFree := by
  rintro rfl
  cases type <;> cases ends

theorem Chained.entry_ne (chained : Chained vol table chain) {cln : Nat} (mem : cln ∈ chain) :
    table cln ≠ genfatFree := by
  obtain ⟨index, inside, rfl⟩ := List.getElem_of_mem mem
  have here := List.getElem?_eq_getElem inside
  by_cases more : index + 1 < chain.length
  · have there := List.getElem?_eq_getElem more
    rw [chained.step here there]
    have valid := (chained.valid _ (List.mem_of_getElem? there)).1
    rw [genfatFree]
    omega
  · have last : chain.getLast? = some chain[index] := by
      rw [List.getLast?_eq_getElem?, ← here]
      congr 1
      omega
    exact isEoc_ne (chained.last _ last)

/-- A chain has no more clusters than the volume. -/
theorem length_le_dataCls (valid : ∀ cln ∈ chain, Valid vol cln) (nodup : chain.Nodup) :
    chain.length ≤ vol.dataCls := by
  have inside : chain ⊆ range' 2 vol.dataCls := by
    intro cln mem
    have bounds := valid cln mem
    rw [Valid] at bounds
    rw [mem_range'_1]
    omega
  have least := (List.subperm_of_subset nodup inside).length_le
  rwa [List.length_range'] at least

/-- A chain is followed. -/
theorem skipClusters_spec (ready : Ready fs) (chained : Chained fs.vol fs.table chain)
    {count index target : Nat} (here : chain[index]? = some cln)
    (there : chain[index + count]? = some target) :
    ∃ after, FileFd.skipClusters count fs cln = (.ok target, after) ∧ Becomes fs after fs.clusters := by
  induction count generalizing fs index cln with
  | zero =>
    rw [Nat.add_zero, here] at there
    cases there
    exact ⟨fs, rfl, becomes_self ready⟩
  | succ count ih =>
    obtain ⟨middle, read, quiet⟩ :=
      getFatCluster_clusters ready (chained.valid cln (List.mem_of_getElem? here))
    have inside : index + 1 < chain.length := by
      have bounded := (List.getElem?_eq_some_iff.mp there).1
      omega
    have next := List.getElem?_eq_getElem inside
    have value : fs.clusters.table cln = chain[index + 1] := chained.step here next
    have table : middle.table = fs.table := congrArg Clusters.table quiet.clusters
    obtain ⟨after, followed, rest⟩ := ih quiet.ready (by rw [quiet.vol, table]; exact chained) next
      (by rw [Nat.add_right_comm]; exact there)
    rw [FileFd.skipClusters, read, value]
    dsimp only
    rw [followed]
    exact ⟨after, rfl, quiet.clusters ▸ quiet.trans rest⟩

/-- The state after the clusters of a chain are freed. -/
def Clusters.release (state : Clusters) (type : FatType) (chain : List Nat) : Clusters :=
  { state with
    table := fun cln =>
      if cln ∈ chain then storedEntry type (state.table cln) genfatFree else state.table cln }

theorem Clusters.release_cons (st : Clusters) (type : FatType) (notMem : cln ∉ chain) :
    (st.set type cln genfatFree).release type chain = st.release type (cln :: chain) := by
  rw [Clusters.release, Clusters.release, Clusters.set]
  congr 1
  funext other
  by_cases same : other = cln
  · subst same
    rw [if_neg notMem, if_pos mem_cons_self]
    exact update_self _ _ _
  · simp only [mem_cons, same, false_or, update_of_ne same]

/-- The loop gives back a chain. -/
theorem freeLoop_spec (ready : Ready fs) (chained : Chained fs.vol fs.table (cln :: chain))
    {fuel : Nat} (enough : chain.length + 1 < fuel) (freed : Nat) (rc1 : Except Errno Unit) :
    ∃ after, freeLoop fuel fs cln freed rc1 = (rc1, after, freed + (chain.length + 1), true) ∧
      Becomes fs after (fs.clusters.release fs.vol.type (cln :: chain)) := by
  induction chain generalizing fs cln fuel freed with
  | nil =>
    have valid := chained.valid cln mem_cons_self
    obtain ⟨fuel, rfl⟩ : ∃ rest, fuel = rest + 2 := ⟨fuel - 2, by omega⟩
    obtain ⟨middle, read, quiet⟩ := getFatCluster_clusters ready valid
    obtain ⟨after, wrote, set⟩ :=
      setFatCluster_clusters quiet.ready (quiet.vol.symm ▸ valid) genfatFree
    have ends : after.vol.type.isEoc (fs.clusters.table cln) = true := by
      rw [set.vol, quiet.vol]
      exact chained.last cln (by simp)
    rw [freeLoop, ready.not_isEoc valid, read]
    dsimp only
    rw [if_neg (by decide), wrote]
    dsimp only
    rw [freeLoop, if_pos ends]
    refine ⟨after, rfl, ?_⟩
    rw [← Clusters.release_cons fs.clusters fs.vol.type List.not_mem_nil]
    rw [quiet.clusters, quiet.vol] at set
    have whole := quiet.trans set
    simpa [Clusters.release] using whole
  | cons next chain ih =>
    have valid := chained.valid cln mem_cons_self
    have notMem := (nodup_cons.mp chained.nodup).1
    obtain ⟨fuel, rfl⟩ : ∃ rest, fuel = rest + 1 := ⟨fuel - 1, by omega⟩
    obtain ⟨middle, read, quiet⟩ := getFatCluster_clusters ready valid
    obtain ⟨between, wrote, set⟩ :=
      setFatCluster_clusters quiet.ready (quiet.vol.symm ▸ valid) genfatFree
    rw [quiet.clusters, quiet.vol] at set
    have value : fs.clusters.table cln = next := @Linked.step _ _ _ _ _ _ chained.toLinked 0 rfl rfl
    have first := quiet.trans set
    have table : between.table = update fs.table cln
        (storedEntry fs.vol.type (fs.table cln) genfatFree) :=
      congrArg Clusters.table first.clusters
    have rest : Chained between.vol between.table (next :: chain) := by
      rw [first.vol, table]
      apply (chained.drop 1).congr
      intro other mem
      apply update_of_ne
      rintro rfl
      exact notMem mem
    rw [length_cons] at enough
    obtain ⟨after, done, freedRest⟩ := @ih between next first.ready rest fuel (by omega) (freed + 1)
    rw [freeLoop, ready.not_isEoc valid, read]
    dsimp only
    rw [if_neg (by decide), wrote]
    dsimp only
    rw [value, done]
    refine ⟨after, ?_, ?_⟩
    · rw [length_cons, Nat.add_right_comm freed 1, Nat.add_assoc freed]
    · rw [first.clusters, first.vol, Clusters.release_cons _ _ notMem] at freedRest
      exact first.trans freedRest

/-- The state after the count of the free clusters changes, if it is known. -/
def Clusters.count (state : Clusters) (freeCls : Nat) : Clusters :=
  { state with
    freeCls := if state.freeCls ≠ undefinedValue then freeCls % 2 ^ 32 else state.freeCls }

/-- A file system with other counts. -/
def FsInfo.recount (fs : FsInfo) (freeCls nextCl : Nat) : FsInfo :=
  { fs with freeCls := freeCls, nextCl := nextCl }

theorem copyToFats_recount (secBuf : List UInt8) (fuel i freeCls nextCl : Nat) (fs : FsInfo) :
    copyToFats secBuf fuel i (fs.recount freeCls nextCl) =
      ((copyToFats secBuf fuel i fs).1, (copyToFats secBuf fuel i fs).2.recount freeCls nextCl) := by
  induction fuel generalizing i fs with
  | zero => rfl
  | succ fuel ih =>
    by_cases there : sectorNumToBlockNum fs.vol ((fs.c.blkNum + fs.vol.fatLength * i) % 2 ^ 32) <
        fs.device.blockCount
    · rw [copyToFats, copyToFats]
      rw [if_pos there]
      exact (if_pos there).trans (ih (i + 1) (fs.store _ _))
    · rw [copyToFats, copyToFats]
      rw [if_neg there]
      exact if_neg there

theorem copied_recount (fs : FsInfo) (freeCls nextCl : Nat) :
    (fs.recount freeCls nextCl).copied = (fs.copied.1, fs.copied.2.recount freeCls nextCl) := by
  by_cases mirrored : Mirrored fs.vol fs.c.blkNum
  · rw [copied, copied, if_pos mirrored]
    exact (if_pos mirrored).trans (copyToFats_recount _ _ 1 freeCls nextCl fs.writeBack)
  · rw [copied, copied, if_neg mirrored]
    exact if_neg mirrored

/-- The counts do not matter for the contents. -/
theorem volume_recount (fs : FsInfo) (freeCls nextCl : Nat) :
    (fs.recount freeCls nextCl).volume = fs.volume := by
  by_cases pending : fs.c.actual = true ∧ fs.c.modified = true
  · rw [volume, volume, (bufRelease_of_modified pending.1 pending.2).1,
      (@bufRelease_of_modified (fs.recount freeCls nextCl) pending.1 pending.2).1, copied_recount]
    rfl
  · have settled : Settled fs := by
      rw [Settled]
      simpa [Classical.or_iff_not_imp_left] using pending
    rw [settled.volume_eq, @Settled.volume_eq (fs.recount freeCls nextCl) settled]
    rfl

theorem recount_clusters (ready : Ready fs) (freeCls : Nat) {nextCl : Nat}
    (nextWord : nextCl < 2 ^ 32) :
    Becomes fs (fs.recount freeCls nextCl) { fs.clusters with freeCls := freeCls } := by
  refine ⟨⟨ready.toLaid, { ready with }, ready.home, nextWord⟩, rfl, rfl, ?_⟩
  have table : (fs.recount freeCls nextCl).table = fs.table := by
    funext cln
    rw [FsInfo.table, FsInfo.table, volume_recount]
    rfl
  have data : (fs.recount freeCls nextCl).data = fs.data := by
    funext cln ofs
    rw [FsInfo.data, FsInfo.data, volume_recount]
    rfl
  rw [clusters, table, data]
  rfl

variable {st : Clusters}

theorem Clusters.count_unknown (unknown : st.freeCls = undefinedValue) (freeCls : Nat) :
    st.count freeCls = st := by
  rw [Clusters.count, if_neg (Classical.not_not.mpr unknown)]

theorem Clusters.count_known (known : st.freeCls ≠ undefinedValue) (freeCls : Nat) :
    (st.count freeCls).freeCls = freeCls % 2 ^ 32 := if_pos known

theorem countFree_clusters (ready : Ready fs) (freeCls : Nat) :
    Becomes fs (fs.countFree freeCls) (fs.clusters.count freeCls) := by
  rw [countFree, Clusters.count]
  have counts : fs.clusters.freeCls = fs.freeCls := rfl
  rw [counts]
  split
  case isTrue => exact recount_clusters ready (freeCls % 2 ^ 32) ready.nextWord
  case isFalse => exact becomes_self ready

theorem nextCl_clusters (ready : Ready fs) {nextCl : Nat} (nextWord : nextCl < 2 ^ 32) :
    Becomes fs { fs with nextCl := nextCl } fs.clusters :=
  recount_clusters ready fs.freeCls nextWord

theorem Laid.word (laid : Laid vol device) (valid : Valid vol cln) : cln < 2 ^ 32 := by
  have few := laid.dataCls_lt
  have bounded := valid.2
  omega

/-- A chain is given back. -/
theorem freeFatClustersChain_spec (ready : Ready fs)
    (chained : Chained fs.vol fs.table (cln :: chain)) :
    ∃ after, fs.freeFatClustersChain cln = (.ok (), after) ∧
      Becomes fs after ((fs.clusters.release fs.vol.type (cln :: chain)).count
        (fs.freeCls + (chain.length + 1))) := by
  have length := length_le_dataCls chained.valid chained.nodup
  rw [length_cons] at length
  obtain ⟨middle, done, freed⟩ :=
    @freeLoop_spec fs cln chain ready chained (fs.vol.dataCls + 3) (by omega) 0 (.ok ())
  have counts : middle.freeCls = fs.freeCls := congrArg Clusters.freeCls freed.clusters
  have next := nextCl_clusters freed.ready (ready.toLaid.word (chained.valid cln mem_cons_self))
  have counted := countFree_clusters next.ready (middle.freeCls + (0 + (chain.length + 1)))
  have released := bufRelease_clusters counted.ready
  have final : fs.freeFatClustersChain cln = (.ok (), (FsInfo.countFree { middle with nextCl := cln }
      (middle.freeCls + (0 + (chain.length + 1)))).bufRelease.2) := by
    rw [freeFatClustersChain, done]
    rfl
  refine ⟨_, final, ?_⟩
  rw [counted.clusters, next.clusters, freed.clusters] at released
  have count : fs.freeCls + (chain.length + 1) = middle.freeCls + (0 + (chain.length + 1)) := by
    rw [counts, Nat.zero_add]
  rw [count]
  exact (freed.trans next).trans (counted.trans released)

/-- The loop variables of the scan after clusters were taken. -/
def scanOf (taken : List Nat) (cl4find : Nat) : Scan :=
  { chain := taken.headD 0, clsAdded := taken.length, saveCln := taken.getLastD undefinedValue
    cl4find := cl4find }

/-- The state after clusters were taken. They were free. -/
structure Taken (vol : Volume) (before : Clusters) (zeroFill : Bool) (taken : List Nat)
    (state : Clusters) : Prop where
  chained : Chained vol state.table taken
  free : ∀ cln ∈ taken, before.table cln = genfatFree
  clear : ∀ cln ∈ taken, Clear vol.type (state.table cln)
  table : ∀ cln, cln ∉ taken → state.table cln = before.table cln
  data : ∀ cln, state.data cln = if zeroFill = true ∧ cln ∈ taken then fun _ => 0 else before.data cln
  freeCls : state.freeCls = before.freeCls

theorem Laid.clear_link (laid : Laid vol device) (valid : Valid vol cln) : Clear vol.type cln := by
  have numbers := laid.numbers
  have bounded := valid.2
  intro type
  rw [type, FatType.eocVal] at numbers
  omega

theorem clear_free (type : FatType) : Clear type genfatFree := fun _ => Nat.two_pow_pos 28

/-- The table after a cluster was put behind the clusters that were taken. -/
theorem Taken.snoc {before : Clusters} {zeroFill : Bool} {taken : List Nat} (laid : Laid vol device)
    (took : Taken vol before zeroFill taken st) (valid : Valid vol cln) (fresh : cln ∉ taken)
    (stored : table cln = storedEntry vol.type genfatFree genfatEoc)
    (joined : ∀ last ∈ taken.getLast?, table last = cln)
    (same : ∀ other, other ≠ cln → other ∉ taken.getLast? → table other = st.table other) :
    Chained vol table (taken ++ [cln]) ∧ (∀ other ∈ taken ++ [cln], Clear vol.type (table other)) ∧
      ∀ other, other ∉ taken ++ [cln] → table other = before.table other := by
  have ends : vol.type.isEoc (table cln) = true := stored ▸ storedEntry_eoc vol.type genfatFree
  refine ⟨⟨?_, ?_⟩, ?_, ?_⟩
  · cases last : taken.getLast? with
    | none =>
      obtain rfl := List.getLast?_eq_none_iff.mp last
      exact linked_singleton ends
    | some last' =>
      have inside : last' ∈ taken := List.mem_of_mem_getLast? last
      have distinct : cln ≠ last' := by
        rintro rfl
        exact fresh inside
      have old : Linked (update table last' (st.table last'))
          (fun value => vol.type.isEoc value = true) taken := by
        apply took.chained.toLinked.congr
        intro other mem
        by_cases equal : other = last'
        · rw [equal, update_self]
        · rw [update_of_ne equal]
          refine same other ?_ ?_
          · rintro rfl
            exact fresh mem
          · rw [last, Option.mem_some_iff]
            exact Ne.symm equal
      have new : Linked (update table last' (st.table last'))
          (fun value => vol.type.isEoc value = true) [cln] := by
        apply linked_singleton
        rw [update_of_ne distinct]
        exact ends
      refine old.append new last rfl ?_ (joined last' last) ?_
      · intro first mem equal
        exact fresh (mem_singleton.mp equal ▸ mem)
      · intro other other_ne
        rw [update_of_ne other_ne]
  · intro other mem
    rcases mem_append.mp mem with old | new
    · exact took.chained.valid other old
    · exact mem_singleton.mp new ▸ valid
  · intro other mem
    rcases mem_append.mp mem with old | new
    · by_cases last : other ∈ taken.getLast?
      · rw [joined other last]
        exact laid.clear_link valid
      · rw [same other (fun equal => fresh (equal ▸ old)) last]
        exact took.clear other old
    · rw [mem_singleton.mp new, stored]
      exact storedEntry_clear (clear_free _) genfatEoc
  · intro other notMem
    rw [mem_append, mem_singleton, not_or] at notMem
    rw [same other notMem.2 fun last => notMem.1 (List.mem_of_mem_getLast? last)]
    exact took.table other notMem.1

/-- The entries that are set when a cluster is taken. -/
theorem scanTake_link (ready : Ready fs) {before : Clusters} {zeroFill : Bool} {taken : List Nat}
    (took : Taken fs.vol before zeroFill taken fs.clusters) (valid : Valid fs.vol cln)
    (fresh : cln ∉ taken) (free : before.table cln = genfatFree) :
    ∃ middle after table, fs.setFatCluster cln genfatEoc = (.ok (), middle) ∧
      (if taken.length = 0 then (.ok (), middle)
        else middle.setFatCluster (taken.getLastD undefinedValue) cln) = (.ok (), after) ∧
      Becomes fs after { fs.clusters with table := table } ∧
      Chained fs.vol table (taken ++ [cln]) ∧
      (∀ other ∈ taken ++ [cln], Clear fs.vol.type (table other)) ∧
      ∀ other, other ∉ taken ++ [cln] → table other = before.table other := by
  obtain ⟨middle, wrote, set⟩ := setFatCluster_clusters ready valid genfatEoc
  have entry : fs.clusters.table cln = genfatFree := (took.table cln fresh).trans free
  have stored : (fs.clusters.set fs.vol.type cln genfatEoc).table cln =
      storedEntry fs.vol.type genfatFree genfatEoc := by
    rw [← entry]
    exact update_self _ _ _
  cases last : taken.getLast? with
  | none =>
    obtain rfl := List.getLast?_eq_none_iff.mp last
    refine ⟨middle, middle, (fs.clusters.set fs.vol.type cln genfatEoc).table, wrote, rfl, set, ?_⟩
    apply took.snoc ready.toLaid valid fresh stored
    · intro last' mem
      cases mem
    · intro other other_ne _
      exact update_of_ne other_ne _ _
  | some last' =>
    have inside : last' ∈ taken := List.mem_of_mem_getLast? last
    have some : taken.length ≠ 0 := by
      intro none
      rw [List.eq_nil_of_length_eq_zero none] at inside
      cases inside
    have distinct : last' ≠ cln := by
      rintro rfl
      exact fresh inside
    have lastD : taken.getLastD undefinedValue = last' := by
      rw [List.getLastD_eq_getLast?, last, Option.getD_some]
    have lastValid : Valid fs.vol last' := took.chained.valid last' inside
    obtain ⟨after, joined, linked⟩ :=
      setFatCluster_clusters set.ready (set.vol.symm ▸ lastValid) cln
    have value : storedEntry fs.vol.type
        ((fs.clusters.set fs.vol.type cln genfatEoc).table last') cln = cln := by
      apply ready.storedEntry_link valid
      have unchanged : (fs.clusters.set fs.vol.type cln genfatEoc).table last' =
        fs.clusters.table last' := update_of_ne distinct _ _
      rw [unchanged]
      exact took.clear last' inside
    refine ⟨middle, after, update (fs.clusters.set fs.vol.type cln genfatEoc).table last' cln,
      wrote, ?_, ?_, ?_⟩
    · rw [if_neg some, lastD, joined]
    · rw [set.clusters, set.vol, Clusters.set, value] at linked
      exact set.trans linked
    · apply took.snoc ready.toLaid valid fresh
      · rw [update_of_ne (Ne.symm distinct)]
        exact stored
      · intro found mem
        rw [last, Option.mem_some_iff] at mem
        rw [← mem, update_self]
      · intro other other_ne notLast
        rw [last, Option.mem_some_iff] at notLast
        rw [update_of_ne (Ne.symm notLast)]
        exact update_of_ne other_ne _ _

/-- The rest of taking a cluster, after the entries were set. -/
theorem scanTake_eq {scan started : Scan} {middle linked : FsInfo} (zeroFill : Bool)
    (starts : (if scan.clsAdded = 0 then { scan with chain := scan.cl4find } else scan) = started)
    (wrote : fs.setFatCluster started.cl4find genfatEoc = (.ok (), middle))
    (joined : (if scan.clsAdded = 0 then (.ok (), middle)
      else middle.setFatCluster started.saveCln started.cl4find) = (.ok (), linked)) :
    fs.scanTake zeroFill scan =
      let taken := { started with saveCln := started.cl4find, clsAdded := started.clsAdded + 1 }
      if zeroFill then
        match linked.clusterSet started.cl4find 0 linked.vol.bpc 0 with
        | (.error errno, fs) => (.error errno, fs.scanCleanup started)
        | (.ok written, fs) =>
          if fs.vol.bpc ≠ written then (.error .eio, fs.scanCleanup started) else (.ok taken, fs)
      else (.ok taken, linked) := by
  rw [scanTake]
  rw [starts, wrote]
  dsimp only
  rw [joined] <;> rfl

/-- A free cluster is taken. -/
theorem scanTake_spec (ready : Ready fs) {before : Clusters} {zeroFill : Bool} {taken : List Nat}
    (took : Taken fs.vol before zeroFill taken fs.clusters) (valid : Valid fs.vol cln)
    (fresh : cln ∉ taken) (free : before.table cln = genfatFree) :
    ∃ after, fs.scanTake zeroFill (scanOf taken cln) = (.ok (scanOf (taken ++ [cln]) cln), after) ∧
      Becomes fs after after.clusters ∧ Taken fs.vol before zeroFill (taken ++ [cln]) after.clusters := by
  obtain ⟨middle, linked, table, wrote, joined, becomes, chained, clear, rest⟩ :=
    scanTake_link ready took valid fresh free
  have head : (if (scanOf taken cln).clsAdded = 0 then
      { scanOf taken cln with chain := (scanOf taken cln).cl4find } else scanOf taken cln) =
        Scan.mk ((taken ++ [cln]).headD 0) taken.length (taken.getLastD undefinedValue) cln := by
    cases taken <;> rfl
  have result : Scan.mk ((taken ++ [cln]).headD 0) (taken.length + 1) cln cln =
      scanOf (taken ++ [cln]) cln := by
    rw [scanOf, length_append, List.getLastD_concat]
    rfl
  have freeAll : ∀ other ∈ taken ++ [cln], before.table other = genfatFree := by
    intro other mem
    rcases mem_append.mp mem with old | new
    · exact took.free other old
    · exact mem_singleton.mp new ▸ free
  rw [scanTake_eq zeroFill head wrote joined]
  cases zeroFill with
  | false =>
    refine ⟨linked, congrArg (fun scan => (Except.ok scan, linked)) result, ?_, ?_⟩
    · exact becomes.clusters ▸ becomes
    · rw [becomes.clusters]
      refine ⟨chained, freeAll, clear, rest, ?_, took.freeCls⟩
      intro other
      exact (took.data other).trans (if_neg (by simp))
  | true =>
    rw [if_pos rfl, clusterSet]
    obtain ⟨after, cleared, written⟩ := @clusterWrite_clusters linked cln becomes.ready
      (becomes.vol.symm ▸ valid) 0 (List.replicate linked.vol.bpc 0) (by simp)
    rw [List.length_replicate] at cleared
    rw [cleared]
    dsimp only
    have whole := becomes.trans written
    rw [whole.vol, becomes.vol, if_neg (Classical.not_not.mpr rfl)]
    refine ⟨after, congrArg (fun scan => (Except.ok scan, after)) result, ?_, ?_⟩
    · exact whole.clusters ▸ whole
    · rw [whole.clusters, becomes.clusters, becomes.vol]
      refine ⟨chained, freeAll, clear, rest, ?_, took.freeCls⟩
      intro other
      by_cases same : other = cln
      · subst same
        rw [if_pos ⟨rfl, by simp⟩]
        refine (update_self _ _ _).trans ?_
        funext ofs
        by_cases inside : ofs < fs.vol.bpc
        · have byte := @put_inside _ (fs.clusters.data other) 0 (List.replicate fs.vol.bpc 0) ofs
            (by rwa [List.length_replicate])
          rw [Nat.zero_add, List.getElem_replicate] at byte
          exact byte
        · rw [put_outside (by rw [List.length_replicate]; omega)]
          exact if_neg fun there => inside there.2
      · refine (update_of_ne same _ _).trans ?_
        simpa [same] using took.data other

/-- The clusters in the order of a scan. -/
def scanned (vol : Volume) : Nat → Nat → List Nat
  | 0, _ => []
  | count + 1, cln => cln :: scanned vol count (if cln + 1 ≥ vol.dataCls + 2 then 2 else cln + 1)

/-- The clusters of a scan are different ones of the volume. -/
theorem scanned_spec {count : Nat} (valid : Valid vol cln) (few : count ≤ vol.dataCls) :
    (scanned vol count cln).Nodup ∧ ∀ other, other ∈ scanned vol count cln ↔
      Valid vol other ∧ (if cln ≤ other then other - cln else other + vol.dataCls - cln) < count := by
  induction count generalizing cln with
  | zero => exact ⟨List.nodup_nil, by simp [scanned]⟩
  | succ count ih =>
    rw [Valid] at valid
    obtain ⟨nodup, members⟩ := @ih
      (if cln + 1 ≥ vol.dataCls + 2 then 2 else cln + 1) (by rw [Valid]; split <;> omega) (by omega)
    rw [scanned]
    constructor
    · rw [nodup_cons, members]
      refine ⟨?_, nodup⟩
      rintro ⟨_, less⟩
      split at less
      · rw [if_pos (by omega)] at less
        omega
      · rw [if_neg (by omega)] at less
        omega
    · intro other
      rw [mem_cons, members]
      constructor
      · rintro (rfl | ⟨inside, less⟩)
        · exact ⟨valid, by simp⟩
        · refine ⟨inside, ?_⟩
          split at less <;> split at less <;> split <;> omega
      · rintro ⟨inside, less⟩
        by_cases same : other = cln
        · exact Or.inl same
        · refine Or.inr ⟨inside, ?_⟩
          rw [Valid] at inside
          split at less <;> split <;> split <;> omega

/-- The count of the free clusters. -/
def freeCount (vol : Volume) (table : Nat → Nat) : Nat :=
  (range' 2 vol.dataCls).countP fun cln => decide (table cln = genfatFree)

/-- The count of the free clusters is right if it is known. -/
def Counted (vol : Volume) (state : Clusters) : Prop :=
  state.freeCls ≠ undefinedValue → state.freeCls = freeCount vol state.table

theorem countP_split {l : List Nat} {p q r : Nat → Bool}
    (either : ∀ cln ∈ l, p cln = (q cln || r cln)) (apart : ∀ cln ∈ l, ¬ (q cln = true ∧ r cln = true)) :
    l.countP p = l.countP q + l.countP r := by
  induction l with
  | nil => rfl
  | cons cln l ih =>
    have rest := ih (fun other mem => either other (List.mem_cons_of_mem _ mem))
      fun other mem => apart other (List.mem_cons_of_mem _ mem)
    have here := either cln mem_cons_self
    have distinct := apart cln mem_cons_self
    rw [countP_cons, countP_cons, countP_cons, rest, here]
    cases first : q cln with
    | false => cases r cln <;> simp [Nat.add_assoc]
    | true =>
      cases second : r cln with
      | false => simp; omega
      | true => exact absurd ⟨first, second⟩ distinct

/-- Clusters that are free in one table and not in another one. -/
theorem freeCount_add (valid : ∀ cln ∈ chain, Valid vol cln) (nodup : chain.Nodup)
    (free : ∀ cln ∈ chain, table cln = genfatFree) (busy : ∀ cln ∈ chain, after cln ≠ genfatFree)
    (same : ∀ cln, cln ∉ chain → after cln = table cln) :
    freeCount vol table = freeCount vol after + chain.length := by
  have members : ((range' 2 vol.dataCls).filter fun cln => decide (cln ∈ chain)).Perm chain := by
    apply (List.perm_ext_iff_of_nodup (List.Pairwise.filter _ List.nodup_range') nodup).mpr
    intro cln
    rw [List.mem_filter, decide_eq_true_eq, mem_range'_1]
    constructor
    · exact fun inside => inside.2
    · intro mem
      have bounds := valid cln mem
      rw [Valid] at bounds
      exact ⟨by omega, mem⟩
  rw [freeCount, freeCount, ← members.length_eq, ← List.countP_eq_length_filter]
  apply countP_split
  · intro cln _
    by_cases mem : cln ∈ chain
    · simp [mem, free cln mem]
    · simp [mem, same cln mem]
  · rintro cln _ ⟨still, mem⟩
    exact busy cln (of_decide_eq_true mem) (of_decide_eq_true still)

theorem freeCount_congr (same : ∀ cln, after cln = genfatFree ↔ table cln = genfatFree) :
    freeCount vol after = freeCount vol table :=
  List.countP_congr fun cln _ => by simp [same cln]

theorem freeCount_le (vol : Volume) (table : Nat → Nat) : freeCount vol table ≤ vol.dataCls := by
  have bounded := List.countP_le_length (p := fun cln => decide (table cln = genfatFree))
    (l := range' 2 vol.dataCls)
  rwa [List.length_range'] at bounded

theorem Taken.counted {before : Clusters} {zeroFill : Bool} {taken : List Nat}
    (laid : Laid vol device) (took : Taken vol before zeroFill taken st)
    (counted : Counted vol before) :
    Counted vol (st.count (minus before.freeCls taken.length)) := by
  intro known
  by_cases unknown : before.freeCls = undefinedValue
  · rw [Clusters.count_unknown (took.freeCls.trans unknown)] at known
    exact absurd (took.freeCls.trans unknown) known
  · have split : freeCount vol before.table = freeCount vol st.table + taken.length :=
      freeCount_add took.chained.valid took.chained.nodup took.free
        (fun cln mem => took.chained.entry_ne mem) took.table
    have few := freeCount_le vol before.table
    have bounded := laid.dataCls_lt
    rw [Clusters.count_known (took.freeCls.symm ▸ unknown), counted unknown, minus]
    change _ = freeCount vol st.table
    omega

/-- The count is right after a chain was given back. -/
theorem release_counted (laid : Laid vol device) (chained : Chained vol st.table chain)
    (clear : ∀ cln ∈ chain, Clear vol.type (st.table cln)) (counted : Counted vol st) :
    Counted vol ((st.release vol.type chain).count (st.freeCls + chain.length)) := by
  intro known
  by_cases unknown : st.freeCls = undefinedValue
  · have same : (st.release vol.type chain).freeCls = undefinedValue := unknown
    rw [Clusters.count_unknown same] at known
    exact absurd same known
  · have split := @freeCount_add vol chain (st.release vol.type chain).table st.table
      chained.valid chained.nodup
      (fun cln mem => (if_pos mem).trans (storedEntry_free (clear cln mem)))
      (fun cln mem => chained.entry_ne mem) (fun cln outside => (if_neg outside).symm)
    have few := freeCount_le vol (st.release vol.type chain).table
    have bounded := laid.dataCls_lt
    have known' : (st.release vol.type chain).freeCls ≠ undefinedValue := unknown
    rw [Clusters.count_known known', counted unknown]
    change _ = freeCount vol (st.release vol.type chain).table
    omega

/-- A whole scan sees all clusters. -/
theorem scanned_free (valid : Valid vol cln) (table : Nat → Nat) :
    ((scanned vol vol.dataCls cln).filter fun cln => decide (table cln = genfatFree)).length =
      freeCount vol table := by
  obtain ⟨nodup, members⟩ := scanned_spec valid (le_refl vol.dataCls)
  have all : (scanned vol vol.dataCls cln).Perm (range' 2 vol.dataCls) := by
    apply (List.perm_ext_iff_of_nodup nodup List.nodup_range').mpr
    intro other
    rw [members, mem_range'_1, Valid]
    rw [Valid] at valid
    split <;> omega
  rw [freeCount, ← List.countP_eq_length_filter]
  exact all.countP_eq _

/-- The loop takes the free clusters in the order of the scan, until there are enough. -/
theorem scanLoop_spec (ready : Ready fs) {before : Clusters} {zeroFill : Bool} {taken : List Nat}
    {count rest : Nat} (took : Taken fs.vol before zeroFill taken fs.clusters)
    (valid : Valid fs.vol cln) (few : rest ≤ fs.vol.dataCls) (less : taken.length ≤ count)
    (fresh : ∀ other ∈ scanned fs.vol rest cln, other ∉ taken) :
    ∃ after last, scanLoop count zeroFill rest fs (scanOf taken cln) =
        (.ok (scanOf (taken ++ ((scanned fs.vol rest cln).filter fun cln =>
          decide (before.table cln = genfatFree)).take (count - taken.length)) last), after) ∧
      Becomes fs after after.clusters ∧
      Taken fs.vol before zeroFill (taken ++ ((scanned fs.vol rest cln).filter fun cln =>
        decide (before.table cln = genfatFree)).take (count - taken.length)) after.clusters := by
  induction rest generalizing fs taken cln with
  | zero =>
    refine ⟨fs, cln, ?_, becomes_self ready, ?_⟩
    · simp [scanLoop, scanned]
    · simpa [scanned] using took
  | succ rest ih =>
    by_cases enough : taken.length = count
    · refine ⟨fs, cln, ?_, becomes_self ready, ?_⟩
      · rw [scanLoop]
        have added : (scanOf taken cln).clsAdded = count := enough
        rw [if_pos added, enough, Nat.sub_self, List.take_zero, List.append_nil]
      · rw [enough, Nat.sub_self, List.take_zero, List.append_nil]
        exact took
    · have added : ¬ (scanOf taken cln).clsAdded = count := enough
      have notMem : cln ∉ taken := fresh cln mem_cons_self
      obtain ⟨middle, read, quiet⟩ := getFatCluster_clusters ready valid
      have entry : fs.clusters.table cln = before.table cln := took.table cln notMem
      have nextValid : Valid fs.vol (if cln + 1 ≥ fs.vol.dataCls + 2 then 2 else cln + 1) := by
        rw [Valid] at valid ⊢
        split <;> omega
      obtain ⟨nodup, _⟩ := scanned_spec valid few
      rw [scanned, nodup_cons] at nodup
      have later : ∀ other ∈ scanned fs.vol rest
          (if cln + 1 ≥ fs.vol.dataCls + 2 then 2 else cln + 1), other ∉ taken :=
        fun other mem => fresh other (List.mem_cons_of_mem _ mem)
      rw [scanLoop, if_neg added]
      have place : (scanOf taken cln).cl4find = cln := rfl
      rw [place, read]
      dsimp only
      rw [entry, scanned]
      have tookMiddle : Taken middle.vol before zeroFill taken middle.clusters := by
        rw [quiet.vol, quiet.clusters]
        exact took
      by_cases free : before.table cln = genfatFree
      · rw [if_pos free]
        obtain ⟨between, take, became, tookMore⟩ :=
          scanTake_spec quiet.ready tookMiddle (quiet.vol.symm ▸ valid) notMem free
        rw [take]
        dsimp only
        have vol : between.vol = fs.vol := became.vol.trans quiet.vol
        have disjoint : ∀ other ∈ scanned between.vol rest
            (if cln + 1 ≥ between.vol.dataCls + 2 then 2 else cln + 1), other ∉ taken ++ [cln] := by
          rw [vol]
          intro other mem
          rw [mem_append, mem_singleton, not_or]
          refine ⟨later other mem, ?_⟩
          rintro rfl
          exact nodup.1 mem
        obtain ⟨after, last, done, finished, tookAll⟩ := ih became.ready
          (by rw [became.vol]; exact tookMore) (by rw [vol]; exact nextValid) (by rw [vol]; omega)
          (by rw [length_append, List.length_singleton]; omega) disjoint
        have split : count - taken.length = count - (taken ++ [cln]).length + 1 := by
          rw [length_append, List.length_singleton]
          omega
        rw [List.filter_cons_of_pos (by simpa using free), split, List.take_succ_cons,
          List.append_cons taken cln (List.take _ _)]
        rw [vol] at done
        rw [became.vol, quiet.vol] at tookAll
        refine ⟨after, last, ?_, (quiet.trans became).trans finished, tookAll⟩
        rw [vol]
        exact done
      · rw [if_neg free]
        obtain ⟨after, last, done, finished, tookAll⟩ := ih quiet.ready
          tookMiddle (by rw [quiet.vol]; exact nextValid) (by rw [quiet.vol]; omega) less
          (by rw [quiet.vol]; exact later)
        rw [quiet.vol] at done tookAll
        rw [List.filter_cons_of_neg (by simpa using free)]
        refine ⟨after, last, ?_, quiet.trans finished, tookAll⟩
        dsimp only
        rw [quiet.vol]
        exact done

/-- The loop takes as many clusters as it can. -/
theorem scanLoop_whole (ready : Ready fs) (count : Nat) (zeroFill : Bool) :
    ∃ after taken last, scanLoop count zeroFill fs.vol.dataCls fs
        (scanOf [] (if minus fs.nextCl 2 < fs.vol.dataCls then fs.nextCl else 2)) =
          (.ok (scanOf taken last), after) ∧
      Becomes fs after after.clusters ∧ Taken fs.vol fs.clusters zeroFill taken after.clusters ∧
      taken.length = min count (freeCount fs.vol fs.table) := by
  have nothing : Taken fs.vol fs.clusters zeroFill [] fs.clusters :=
    ⟨⟨linked_nil, by simp⟩, by simp, by simp, fun _ _ => rfl, by simp, rfl⟩
  by_cases none : fs.vol.dataCls = 0
  · have few : freeCount fs.vol fs.table = 0 := by
      rw [freeCount, none]
      rfl
    refine ⟨fs, [], if minus fs.nextCl 2 < fs.vol.dataCls then fs.nextCl else 2, ?_,
      becomes_self ready, nothing, ?_⟩
    · rw [none]
      rfl
    · rw [few, Nat.min_zero, List.length_nil]
  · have valid : Valid fs.vol (if minus fs.nextCl 2 < fs.vol.dataCls then fs.nextCl else 2) := by
      have few := ready.dataCls_lt
      have word := ready.nextWord
      rw [Valid]
      split
      case isTrue begins =>
        rw [minus] at begins
        omega
      case isFalse => omega
    obtain ⟨after, last, done, becomes, took⟩ := @scanLoop_spec fs _ ready fs.clusters zeroFill []
      count fs.vol.dataCls nothing valid (le_refl _) (Nat.zero_le count) (by simp)
    rw [List.nil_append, List.length_nil, Nat.sub_zero] at done took
    refine ⟨after, _, last, done, becomes, took, ?_⟩
    rw [List.length_take, scanned_free valid]
    rfl

/-- Free clusters are taken, as many as are asked for if there are enough. -/
theorem scanFatForFreeClusters_spec (ready : Ready fs) (count : Nat) (zeroFill : Bool) :
    ∃ after taken last st, fs.scanFatForFreeClusters count zeroFill =
        (.ok (scanOf taken last), after) ∧
      Becomes fs after (st.count (minus fs.freeCls taken.length)) ∧
      Taken fs.vol fs.clusters zeroFill taken st ∧
      taken.length = min count (freeCount fs.vol fs.table) := by
  obtain ⟨middle, taken, last, done, becomes, took, length⟩ := scanLoop_whole ready count zeroFill
  have counts : middle.freeCls = fs.freeCls := took.freeCls
  have nextWord : taken.getLastD undefinedValue < 2 ^ 32 := by
    rw [List.getLastD_eq_getLast?]
    cases found : taken.getLast? with
    | none => decide
    | some cln =>
      exact ready.toLaid.word (took.chained.valid cln (List.mem_of_mem_getLast? found))
  have next := nextCl_clusters becomes.ready nextWord
  have counted := countFree_clusters next.ready (minus middle.freeCls taken.length)
  have released := bufRelease_clusters counted.ready
  rw [counted.clusters, next.clusters] at released
  rw [← counts]
  refine ⟨_, taken, last, middle.clusters, ?_, (becomes.trans next).trans (counted.trans released),
    took, length⟩
  have start : Scan.mk 0 0 undefinedValue
      (if minus fs.nextCl 2 < fs.vol.dataCls then fs.nextCl else 2) =
        scanOf [] (if minus fs.nextCl 2 < fs.vol.dataCls then fs.nextCl else 2) := rfl
  rw [scanFatForFreeClusters]
  rw [start, done]
  rfl

end Rtems.Dosfs
