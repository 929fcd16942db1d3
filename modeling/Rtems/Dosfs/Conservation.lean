import Rtems.Dosfs.FileArray
import Rtems.Library.Ownership

/-!
# Cluster chains are conserved

The clusters of a volume that are not free have one owner each, a file or a directory. Calls on
regular files move clusters between the free ones and the chain of the file, and the last close of a
file that was removed gives all its clusters back.
-/

namespace Rtems.Dosfs

open ByteRange FsInfo FileFd Links Ownership
open Function (update update_of_ne update_self)

universe u

/-- `fat_file_close` of a file that was removed: the descriptor, unless its memory was freed. Such a
file has no directory entry any more that `fat_file_update` could write. -/
def fatFileClose (fs : FsInfo) (fd : FileFd) : Except Errno Unit × FsInfo × Option FileFd :=
  if fd.linksNum > 1 then
    let (rc, fs) := fs.bufRelease
    (rc, fs, some { fd with linksNum := fd.linksNum - 1 })
  else
    match fatFileTruncate fs fd 0 with
    | (.error _, fs, fd) =>
      let (rc, fs) := fs.bufRelease
      (rc, fs, some fd)
    | (.ok _, fs, _) =>
      let (rc, fs) := fs.bufRelease
      (rc, fs, none)

/-- The flag that `fat_file_mark_removed` sets. -/
def FileFd.markRemoved (fd : FileFd) : FileFd := { fd with removed := true }

/-- A volume with its files and directories. A directory, and a file that is not open, has no
descriptor here. -/
structure Files (ι : Type u) where
  fs : FsInfo
  fd : ι → Option FileFd

/-- An operation on one of the files. -/
inductive Op (ι : Type u) where
  | call (file : ι) (call : Call)
  | remove (file : ι)
  | close (file : ι)

variable {ι : Type u} [DecidableEq ι]

/-- An operation on a file that is open. -/
def Op.run (state : Files ι) : Op ι → Files ι
  | .call file request =>
    match state.fd file with
    | none => state
    | some fd =>
      let (_, fs, fd) := request.run state.fs fd
      ⟨fs, update state.fd file (some fd)⟩
  | .remove file =>
    match state.fd file with
    | none => state
    | some fd => ⟨state.fs, update state.fd file (some fd.markRemoved)⟩
  | .close file =>
    match state.fd file with
    | none => state
    | some fd =>
      let (_, fs, fd) := fatFileClose state.fs fd
      ⟨fs, update state.fd file fd⟩

/-- Operations one after the other. -/
def Files.runs (state : Files ι) : List (Op ι) → Files ι
  | [] => state
  | op :: ops => (op.run state).runs ops

/-- The clusters that are not free. -/
def inUse (vol : Volume) (table : Nat → Nat) (cln : Nat) : Bool :=
  decide (Valid vol cln ∧ table cln ≠ genfatFree)

/-- Every file has its chain, every cluster that is not free is in just one chain. -/
structure Conserved (state : Files ι) (chains : ι → List Nat) : Prop where
  ready : Ready state.fs
  chained : ∀ owner, Chained state.fs.vol state.fs.table (chains owner)
  holds : ∀ owner, ∀ fd ∈ state.fd owner, Holds state.fs.vol state.fs.table fd (chains owner)
  owned : Owned chains (inUse state.fs.vol state.fs.table) fun _ => false

/-- The count of the clusters that a length needs and a file does not have. -/
def clustersNeeded (fs : FsInfo) (fd : FileFd) (length : Nat) : Nat :=
  clustersOf fs.vol length - clustersOf fs.vol fd.fatFileSize

/-- The reserved bits of the last entry of a file are clear. -/
def LastClear (fs : FsInfo) (fd : FileFd) : Prop :=
  fd.fatFileSize ≠ 0 → Clear fs.vol.type (fs.table (lastCluster fs fd))

/-- The last entry takes a link if clusters are put behind it. -/
def Linkable (fs : FsInfo) (fd : FileFd) (length : Nat) : Prop :=
  0 < clustersNeeded fs fd length → 0 < freeCount fs.vol fs.table → LastClear fs fd

/-- A write that reaches a length: it begins below the length that the file can be extended to, or
nothing is left and the file ends with its last cluster. -/
structure Reaches (fs : FsInfo) (fd : FileFd) (start length : Nat) : Prop where
  linkable : Linkable fs fd length
  begins : start < reached fs.vol length (clustersOf fs.vol fd.fatFileSize)
      (clustersNeeded fs fd length) (freeCount fs.vol fs.table) ∨
    freeCount fs.vol fs.table = 0 ∧
      fd.fatFileSize = clustersOf fs.vol fd.fatFileSize * fs.vol.bpc

/-- A call that keeps the chains. -/
def Call.Keeps (fs : FsInfo) (fd : FileFd) : Call → Prop
  | .read _ _ => True
  | .write iop count _ =>
    let start := iop.start fd.fatFileSize
    start < 2 ^ 32 ∧ (0 < count % 2 ^ 32 ∨ start ≤ fd.fatFileSize) ∧
      (0 < count % 2 ^ 32 → start < msdosMaxFileSize →
        Reaches fs fd start (start + min (count % 2 ^ 32) (msdosMaxFileSize - start)))
  | .ftruncate length =>
    if length < fd.fatFileSize then
      length + fs.vol.bpc ≤ 2 ^ 32 ∧
        (clustersOf fs.vol length < clustersOf fs.vol fd.fatFileSize → LastClear fs fd)
    else
      Linkable fs fd length ∧
        (clustersNeeded fs fd length ≤ freeCount fs.vol fs.table ∨ freeCount fs.vol fs.table = 0)

/-- The operations are truncations to a length of 32 bits, other calls, and closes of removed files. -/
def Op.Permitted (state : Files ι) : Op ι → Prop
  | .call file (.ftruncate length) => (state.fd file).isSome → length < 2 ^ 32
  | .call _ _ => True
  | .remove _ => True
  | .close file => ∀ fd ∈ state.fd file, fd.removed = true

/-- An operation that keeps the chains. -/
def Op.Keeps (state : Files ι) : Op ι → Prop
  | .call file request => ∀ fd ∈ state.fd file, request.Keeps state.fs fd
  | .remove _ => True
  | .close file => ∀ fd ∈ state.fd file, fd.linksNum ≤ 1 → LastClear state.fs fd

/-- All operations of a run have a property in the state before them. -/
def AllOps (property : Files ι → Op ι → Prop) (state : Files ι) : List (Op ι) → Prop
  | [] => True
  | op :: ops => property state op ∧ AllOps property (op.run state) ops

/-- How the chain of a file changes: free clusters come behind it, or its end becomes free. -/
inductive Moved (before after : Nat → Nat) (chain : List Nat) : List Nat → Prop where
  | grown (more : List Nat) (free : ∀ cln ∈ more, before cln = genfatFree) :
      Moved before after chain (chain ++ more)
  | cut (count : Nat) (freed : ∀ cln ∈ chain.drop count, after cln = genfatFree) :
      Moved before after chain (chain.take count)

/-- A step that changes the chain of one file. -/
structure Moves (fs after : FsInfo) (chain chain' : List Nat) : Prop where
  ready : Ready after
  vol : after.vol = fs.vol
  chained : Chained fs.vol after.table chain'
  moved : Moved fs.table after.table chain chain'
  others : ∀ cln, cln ∉ chain → cln ∉ chain' → after.table cln = fs.table cln
  counted : Counted fs.vol fs.clusters → Counted fs.vol after.clusters

variable {st : Files ι}
variable {state : Files ι} {chains : ι → List Nat} {fs fs' after : FsInfo} {fd fd' : FileFd}
  {chain chain' : List Nat}

theorem inUse_eq_true {vol : Volume} {table : Nat → Nat} {cln : Nat} :
    inUse vol table cln = true ↔ Valid vol cln ∧ table cln ≠ genfatFree := decide_eq_true_iff

/-- The owners after one of them changed its chain. -/
theorem Moves.owned (moves : Moves fs after chain chain') {owner : ι}
    (chained : Chained fs.vol fs.table chain) (same : chains owner = chain)
    (owned : Owned chains (inUse fs.vol fs.table) fun _ => false) :
    Owned (update chains owner chain') (inUse fs.vol after.table) fun _ => false := by
  have others := moves.others
  have linked := moves.chained
  cases moves.moved with
  | grown more free =>
    have marked : inUse fs.vol after.table = mark (inUse fs.vol fs.table) more := by
      funext cln
      rw [Bool.eq_iff_iff, mark_eq_true, inUse_eq_true, inUse_eq_true]
      by_cases old : cln ∈ chain
      · exact iff_of_true ⟨chained.valid cln old, linked.entry_ne (List.mem_append_left _ old)⟩
          (Or.inl ⟨chained.valid cln old, chained.entry_ne old⟩)
      · by_cases fresh : cln ∈ more
        · exact iff_of_true ⟨linked.valid cln (List.mem_append_right _ fresh),
            linked.entry_ne (List.mem_append_right _ fresh)⟩ (Or.inr fresh)
        · rw [others cln old (by simp [old, fresh]), or_iff_left fresh]
    rw [marked]
    apply owned.grow
    · rw [same]
    · exact (List.nodup_append.mp linked.nodup).2.1
    · intro cln fresh
      rw [← Bool.not_eq_true, inUse_eq_true]
      exact fun used => used.2 (free cln fresh)
  | cut count freed =>
    have whole := List.take_append_drop count chain
    have unmarked : inUse fs.vol after.table = unmark (inUse fs.vol fs.table) (chain.drop count) := by
      funext cln
      rw [Bool.eq_iff_iff, unmark_eq_true, inUse_eq_true, inUse_eq_true]
      by_cases kept : cln ∈ chain.take count
      · have old := List.mem_of_mem_take kept
        have nodup := chained.nodup
        rw [← whole] at nodup
        exact iff_of_true ⟨chained.valid cln old, linked.entry_ne kept⟩
          ⟨⟨chained.valid cln old, chained.entry_ne old⟩,
            fun gone => (List.nodup_append.mp nodup).2.2 cln kept cln gone rfl⟩
      · by_cases gone : cln ∈ chain.drop count
        · exact iff_of_false (fun used => used.2 (freed cln gone)) fun used => used.2 gone
        · have outside : cln ∉ chain := by
            rw [← whole, List.mem_append]
            exact fun either => either.elim kept gone
          rw [others cln outside kept, and_iff_left gone]
    rw [unmarked]
    apply owned.shrink
    rw [whole, same]

/-- One file has moved clusters, and the others are as before. -/
theorem Conserved.update (kept : Conserved st chains) {owner : ι}
    (moves : Moves st.fs after (chains owner) chain') {file : Option FileFd}
    (holds : ∀ fd ∈ file, Holds st.fs.vol after.table fd chain') :
    Conserved ⟨after, update st.fd owner file⟩ (update chains owner chain') := by
  have entries : ∀ other, other ≠ owner → ∀ cln ∈ chains other,
      after.table cln = st.fs.table cln := by
    intro other distinct cln mem
    apply moves.others cln
    · exact fun inside => distinct (kept.owned.apart other owner cln mem inside)
    · intro inside
      have used := (kept.chained other).entry_ne mem
      cases moves.moved with
      | grown more free =>
        obtain old | fresh := List.mem_append.mp inside
        · exact distinct (kept.owned.apart other owner cln mem old)
        · exact used (free cln fresh)
      | cut count freed =>
        exact distinct (kept.owned.apart other owner cln mem (List.mem_of_mem_take inside))
  constructor
  · exact moves.ready
  · intro other
    rw [moves.vol]
    by_cases same : other = owner
    · rw [same, update_self]
      exact moves.chained
    · rw [update_of_ne same]
      exact (kept.chained other).congr (entries other same)
  · intro other fd mem
    dsimp only at mem ⊢
    rw [moves.vol]
    by_cases same : other = owner
    · rw [same, update_self] at mem ⊢
      exact holds fd mem
    · rw [update_of_ne same] at mem ⊢
      exact (kept.holds other fd mem).congr (entries other same)
  · rw [moves.vol]
    exact moves.owned (kept.chained owner) rfl kept.owned

variable {clusters : Clusters}

theorem FsInfo.Becomes.moves_same (becomes : Becomes fs after clusters)
    (table : clusters.table = fs.table) (chained : Chained fs.vol fs.table chain)
    (counted : Counted fs.vol fs.clusters → Counted fs.vol clusters) :
    Moves fs after chain chain := by
  have same : after.table = fs.table := (congrArg Clusters.table becomes.clusters).trans table
  refine ⟨becomes.ready, becomes.vol, same ▸ chained, ?_, fun cln _ _ => congrFun same cln, ?_⟩
  · have grown := @Moved.grown fs.table after.table chain [] (by simp)
    rwa [List.append_nil] at grown
  · rw [becomes.clusters]
    exact counted

theorem Moves.refl (ready : Ready fs) (chained : Chained fs.vol fs.table chain) :
    Moves fs fs chain chain :=
  (becomes_self ready).moves_same rfl chained id

/-- The bytes of clusters change after a move. -/
theorem Moves.then (moves : Moves fs fs' chain chain') {data : Nat → Nat → UInt8}
    (becomes : Becomes fs' after { fs'.clusters with data := data }) :
    Moves fs after chain chain' := by
  have table : after.table = fs'.table := congrArg Clusters.table becomes.clusters
  refine ⟨becomes.ready, becomes.vol.trans moves.vol, ?_, ?_, ?_, fun right => ?_⟩
  · rw [table]
    exact moves.chained
  · rw [table]
    exact moves.moved
  · rw [table]
    exact moves.others
  · rw [becomes.clusters]
    exact moves.counted right

theorem Extended.moves {zeroFill : Bool} {more : List Nat}
    (extended : Extended fs.vol fs.clusters fd chain zeroFill clusters fd' more)
    (becomes : Becomes fs after clusters) : Moves fs after chain (chain ++ more) := by
  have table : after.table = clusters.table := congrArg Clusters.table becomes.clusters
  refine ⟨becomes.ready, becomes.vol, ?_, ?_, ?_, ?_⟩
  · rw [table]
    exact extended.holds.toChained
  · exact .grown more extended.free
  · intro cln old fresh
    rw [table]
    exact extended.table cln old fun mem => fresh (List.mem_append_right _ mem)
  · rw [becomes.clusters]
    exact extended.counted

variable {length : Nat}

theorem Truncated.moves (truncated : Truncated fs.vol fs.clusters fd chain length clusters fd')
    (becomes : Becomes fs after clusters) (clear : clustersOf fs.vol length < chain.length → ∀ cln ∈
      chain.getLast?, Clear fs.vol.type (fs.table cln)) :
    Moves fs after chain (chain.take (clustersOf fs.vol length)) := by
  have table : after.table = clusters.table := congrArg Clusters.table becomes.clusters
  obtain ⟨freed, counted⟩ := truncated.freed clear
  refine ⟨becomes.ready, becomes.vol, ?_, ?_, ?_, ?_⟩
  · rw [table]
    exact truncated.holds.toChained
  · rw [table]
    exact .cut _ freed
  · intro cln old _
    rw [table]
    exact truncated.table cln old
  · rw [becomes.clusters]
    exact counted

/-- Where the condition is about the last entry of the chain. -/
theorem LastClear.last (clear : LastClear fs fd) (ready : Ready fs)
    (holds : Holds fs.vol fs.table fd chain) :
    ∀ cln ∈ chain.getLast?, Clear fs.vol.type (fs.table cln) := by
  intro cln mem
  rw [List.getLast?_eq_getElem?] at mem
  have known := holds.size_ne ready.toSized mem
  have same := holds.iterate known mem
  rw [← same, holds.clusters]
  exact clear known

/-- What an extension does to the file: it has the clusters for the length that is reached. -/
structure Reaching (fs : FsInfo) (fd : FileFd) (chain : List Nat) (length : Nat) (after : FsInfo)
    (fd' : FileFd) (chain' : List Nat) (reach : Nat) : Prop where
  moves : Moves fs after chain chain'
  holds : Holds fs.vol after.table fd' chain'
  most : reach ≤ length
  value : fd.fatFileSize < length → reach = reached fs.vol length (clustersOf fs.vol fd.fatFileSize)
    (clustersNeeded fs fd length) (freeCount fs.vol fs.table)
  whole : length ≤ fd.fatFileSize → reach = length
  clusters : chain'.length = clustersOf fs.vol (max reach fd.fatFileSize)
  size : fd'.fatFileSize = reach ∨ fd'.fatFileSize = fd.fatFileSize
  partly : 0 < clustersNeeded fs fd length → freeCount fs.vol fs.table = 0 →
    fd.fatFileSize < clustersOf fs.vol fd.fatFileSize * fs.vol.bpc

/-- A file is extended, and its chain grows by free clusters. -/
theorem fatFileExtend_moves (ready : Ready fs) (holds : Holds fs.vol fs.table fd chain)
    (zeroFill : Bool) (word : length < 2 ^ 32) (linkable : Linkable fs fd length) :
    (∃ after errno, fatFileExtend fs fd zeroFill length = (.error errno, after, fd) ∧
      Moves fs after chain chain ∧ Holds fs.vol after.table fd chain) ∨
    ∃ after fd' chain' reach, fatFileExtend fs fd zeroFill length = (.ok reach, after, fd') ∧
      Reaching fs fd chain length after fd' chain' reach := by
  by_cases longer : fd.fatFileSize < length
  · have most := clustersOf_le ready.toSized
      (Nat.le_trans (Nat.le_of_lt longer) (clustersOf_spec ready.toSized length).1)
    have total : chain.length + clustersNeeded fs fd length = clustersOf fs.vol length := by
      rw [clustersNeeded, holds.clusters]
      omega
    obtain ⟨after, clusters, becomes, outcome⟩ := fatFileExtend_spec ready holds zeroFill longer word
      total fun needed free => (linkable needed free).last ready holds
    rcases outcome with ⟨_, _, _, failed, table, _, counted⟩ |
      ⟨reach, fd', more, done, extended, _, least, bounded, value, size, partly⟩
    · have moves := becomes.moves_same table holds.toChained counted
      have same : after.table = fs.table := (congrArg Clusters.table becomes.clusters).trans table
      exact Or.inl ⟨after, _, failed, moves, same ▸ holds⟩
    · have table : after.table = clusters.table := congrArg Clusters.table becomes.clusters
      rw [holds.clusters] at value partly
      refine Or.inr ⟨after, fd', chain ++ more, reach, done, extended.moves becomes, ?_, bounded,
        fun _ => value, fun short => absurd longer (Nat.not_lt.mpr short), ?_, ?_,
        fun some => partly (Nat.ne_of_gt some)⟩
      · rw [table]
        exact extended.holds
      · rw [Nat.max_eq_left least]
        split at size
        case isTrue none =>
          have all : reach = length := by rw [value, reached, if_pos (by omega)]
          have same := extended.holds.clusters
          rw [size, ← holds.clusters] at same
          rw [all, same]
          omega
        case isFalse => rw [← size, extended.holds.clusters]
      · split at size
        case isTrue => exact Or.inr size
        case isFalse => exact Or.inl size
  · have short := Nat.not_lt.mp longer
    have unneeded : clustersNeeded fs fd length = 0 := by
      have most := clustersOf_le ready.toSized
        (Nat.le_trans short (clustersOf_spec ready.toSized fd.fatFileSize).1)
      rw [clustersNeeded]
      omega
    refine Or.inr ⟨fs, fd, chain, length, ?_, Moves.refl ready holds.toChained, holds, le_refl _,
      fun more => absurd more longer, fun _ => rfl, ?_, Or.inr rfl, fun some => ?_⟩
    · rw [fatFileExtend, if_pos short]
    · rw [Nat.max_eq_right short, holds.clusters]
    · omega

/-- The size of a file is set to a length that its chain is for. -/
theorem Reaching.resize {reach : Nat} (reaching : Reaching fs fd chain length after fd' chain' reach)
    (sized : fs.vol.Sized) (word : reach < 2 ^ 32) (longer : fd.fatFileSize < reach) :
    Holds fs.vol after.table (fd'.setFileSize reach) chain' := by
  have clusters := reaching.clusters
  rw [Nat.max_eq_left (Nat.le_of_lt longer)] at clusters
  have fits := (clustersOf_spec sized reach).1
  rw [← clusters] at fits
  have inside : 0 < chain'.length := by
    by_contra none
    rw [Nat.eq_zero_of_not_pos none, Nat.zero_mul] at fits
    omega
  exact reaching.holds.resize word clusters
    (Or.inl (reaching.holds.size_ne sized (List.getElem?_eq_getElem inside)))

theorem read_moves (ready : Ready fs) (holds : Holds fs.vol fs.table fd chain) (iop : Iop)
    (count : Nat) :
    ∃ after fd' chain', ((Call.read iop count).run fs fd).2 = (after, fd') ∧
      Moves fs after chain chain' ∧ Holds fs.vol after.table fd' chain' := by
  obtain ⟨after, fileCln, diskCln, read, quiet, sought⟩ :=
    fatFileRead_spec ready holds (iop.offset % 2 ^ 32) (count % 2 ^ 32)
  have table : after.table = fs.table := congrArg Clusters.table quiet.clusters
  refine ⟨after, fd.seek fileCln diskCln, chain, ?_, quiet.moves_same rfl holds.toChained id, ?_⟩
  · rw [Call.run, msdosFileRead, read]
  · rw [table]
    exact sought

/-- The bytes of a write go to the clusters that were reached. -/
theorem Reaching.write {reach start : Nat} (ready : Ready fs)
    (reaching : Reaching fs fd chain length after fd' chain' reach) (word : length < 2 ^ 32)
    (begins : start < reach) (buf : Content) :
    ∃ final fileCln diskCln, fatFileWriteFat32OrNonRootDir after fd' start
        (get buf 0 (reach - start)) = (.ok (reach - start), final, fd'.seek fileCln diskCln) ∧
      Reaching fs fd chain length final (fd'.seek fileCln diskCln) chain' reach := by
  have fits := (clustersOf_spec ready.toSized (max reach fd.fatFileSize)).1
  rw [← reaching.clusters] at fits
  have bounded := reaching.most
  have count : (get buf 0 (reach - start)).length = reach - start := length_get
  obtain ⟨final, fileCln, diskCln, data, wrote, becomes, _, sought⟩ :=
    @fatFileWriteFat32OrNonRootDir_spec after fd' chain' reaching.moves.ready
      (by rw [reaching.moves.vol]; exact reaching.holds) start (get buf 0 (reach - start)) (by omega)
      (by omega) (by rw [reaching.moves.vol]; omega)
  have table : final.table = after.table := congrArg Clusters.table becomes.clusters
  rw [count] at wrote
  rw [reaching.moves.vol] at sought
  exact ⟨final, fileCln, diskCln, wrote, { reaching with
    moves := reaching.moves.then becomes
    holds := by rw [table]; exact sought }⟩

section

variable (ready : Ready fs) (holds : Holds fs.vol fs.table fd chain)
include ready holds

/-- A write of bytes that begins below the largest size. -/
theorem fatFileWrite_moves
    {start count : Nat} (buf : Content) (some : 0 < count) (below : start < msdosMaxFileSize)
    (reaches : Reaches fs fd start (start + min count (msdosMaxFileSize - start))) :
    (∃ after errno, fatFileWrite fs fd start count buf = (.error errno, after, fd) ∧
      Moves fs after chain chain ∧ Holds fs.vol after.table fd chain) ∨
    ∃ after fd' chain' reach length, fatFileWrite fs fd start count buf =
        (.ok (reach - start), after, fd') ∧ start < reach ∧ length < 2 ^ 32 ∧
      Reaching fs fd chain length after fd' chain' reach := by
  have limit := holds.limit
  have amount : (if count > msdosMaxFileSize - start then msdosMaxFileSize - start else count) =
      min count (msdosMaxFileSize - start) := by
    split <;> omega
  rw [fatFileWrite]
  dsimp only
  rw [if_neg (by omega), limit, if_neg (by omega), amount]
  generalize taken : min count (msdosMaxFileSize - start) = part at reaches ⊢
  have word : start + part < 2 ^ 32 := by
    have largest : msdosMaxFileSize = 2 ^ 32 - 1 := rfl
    omega
  rw [Nat.mod_eq_of_lt word]
  obtain ⟨after, errno, failed, moves, kept⟩ | ⟨middle, fd1, chain1, reach, done, reaching⟩ :=
    fatFileExtend_moves ready holds (decide (start > fd.fatFileSize)) word reaches.linkable
  · rw [failed]
    exact Or.inl ⟨after, errno, rfl, moves, kept⟩
  · have begins : start < reach := by
      by_cases longer : fd.fatFileSize < start + part
      · rw [reaching.value longer]
        rcases reaches.begins with begins | ⟨full, whole⟩
        · exact begins
        · rcases Nat.eq_zero_or_pos (clustersNeeded fs fd (start + part)) with none | needed
          · rw [reached, if_pos (by omega)]
            omega
          · exact absurd whole (Nat.ne_of_lt (reaching.partly needed full))
      · rw [reaching.whole (Nat.not_lt.mp longer)]
        omega
    have bounded := reaching.most
    have rest : (if reach ≠ start + part then minus reach start else part) = reach - start := by
      split
      · rw [minus]
        omega
      · omega
    obtain ⟨final, fileCln, diskCln, wrote, finished⟩ := reaching.write ready word begins buf
    have plain : fd1.isFat12OrFat16RootDir middle.vol.type = false := by
      rw [isFat12OrFat16RootDir, reaching.holds.plain, Bool.false_and]
    refine Or.inr ⟨final, _, chain1, reach, start + part, ?_, begins, word, finished⟩
    rw [done]
    dsimp only
    rw [rest, plain, if_neg (by decide), wrote]

theorem write_moves {iop : Iop}
    {count : Nat} {buf : Content} (keeps : (Call.write iop count buf).Keeps fs fd) :
    ∃ after fd' chain', ((Call.write iop count buf).run fs fd).2 = (after, fd') ∧
      Moves fs after chain chain' ∧ Holds fs.vol after.table fd' chain' := by
  obtain ⟨word, gap, reaches⟩ := keeps
  have begins : (if iop.append then { iop with offset := fd.fatFileSize } else iop) =
      { iop with offset := iop.start fd.fatFileSize } := by
    rw [Iop.start]
    split <;> rfl
  rw [Call.run, msdosFileWrite, begins]
  generalize iop.start fd.fatFileSize = start at word gap reaches
  generalize count % 2 ^ 32 = amount at gap reaches
  rw [Nat.mod_eq_of_lt word]
  rcases Nat.eq_zero_or_pos amount with rfl | some
  · rw [fatFileWrite]
    rw [if_pos rfl]
    dsimp only
    rw [if_neg (by omega)]
    exact ⟨fs, fd, chain, rfl, Moves.refl ready holds.toChained, holds⟩
  · by_cases below : start < msdosMaxFileSize
    · obtain ⟨after, errno, failed, moves, kept⟩ |
        ⟨after, fd', chain', reach, length, wrote, begins, bounded, reaching⟩ :=
        fatFileWrite_moves ready holds buf some below (reaches some below)
      · rw [failed]
        exact ⟨after, fd, chain, rfl, moves, kept⟩
      · have sum : start + (reach - start) = reach := by omega
        have most := reaching.most
        rw [wrote]
        dsimp only
        rw [sum]
        refine ⟨after, _, chain', rfl, reaching.moves, ?_⟩
        split
        case isTrue behind =>
          exact reaching.resize ready.toSized (by omega) (by have size := reaching.size; omega)
        case isFalse => exact reaching.holds
    · have limit := holds.limit
      rw [fatFileWrite]
      rw [if_neg (by omega), if_pos (by omega)]
      exact ⟨fs, fd, chain, rfl, Moves.refl ready holds.toChained, holds⟩

theorem ftruncate_moves (word : length < 2 ^ 32) (keeps : (Call.ftruncate length).Keeps fs fd) :
    ∃ after fd' chain', ((Call.ftruncate length).run fs fd).2 = (after, fd') ∧
      Moves fs after chain chain' ∧ Holds fs.vol after.table fd' chain' := by
  rw [Call.Keeps] at keeps
  rw [Call.run, msdosFileFtruncate]
  rw [Nat.mod_eq_of_lt word]
  by_cases shorter : length < fd.fatFileSize
  · rw [if_pos shorter] at keeps
    obtain ⟨whole, clear⟩ := keeps
    obtain ⟨after, clusters, fd', done, becomes, truncated⟩ :=
      fatFileTruncate_spec ready holds shorter whole
    have table : after.table = clusters.table := congrArg Clusters.table becomes.clusters
    rw [if_pos shorter, done]
    refine ⟨after, _, _, rfl, truncated.moves becomes fun less => ?_, ?_⟩
    · exact (clear (holds.clusters ▸ less)).last ready holds
    · rw [table, FileFd.setFileSize, Nat.mod_eq_of_lt word]
      exact truncated.holds
  · rw [if_neg shorter] at keeps
    obtain ⟨linkable, enough⟩ := keeps
    rw [if_neg shorter]
    obtain ⟨after, errno, failed, moves, kept⟩ | ⟨after, fd', chain', reach, done, reaching⟩ :=
      fatFileExtend_moves ready holds true word linkable
    · rw [failed]
      exact ⟨after, fd, chain, rfl, moves, kept⟩
    · rw [done]
      dsimp only
      by_cases all : length = reach
      · subst all
        rw [if_neg (Classical.not_not.mpr rfl)]
        refine ⟨after, _, chain', rfl, reaching.moves, ?_⟩
        by_cases longer : fd.fatFileSize < length
        · exact reaching.resize ready.toSized word longer
        · have same : fd'.fatFileSize = length := by
            have size := reaching.size
            omega
          rw [FileFd.setFileSize, Nat.mod_eq_of_lt word, ← same]
          exact reaching.holds
      · rw [if_pos all]
        have longer : fd.fatFileSize < length := by
          by_contra short
          exact all (reaching.whole (Nat.not_lt.mp short)).symm
        have value := reaching.value longer
        have short : ¬ clustersNeeded fs fd length ≤ freeCount fs.vol fs.table := by
          intro enough
          rw [reached, if_pos enough] at value
          exact all value.symm
        have none := enough.resolve_left short
        have old := (clustersOf_spec ready.toSized fd.fatFileSize).1
        have new := (clustersOf_spec ready.toSized length).1
        have most := clustersOf_word ready.toSized word
        have split : clustersOf fs.vol length =
            clustersOf fs.vol fd.fatFileSize + clustersNeeded fs fd length := by
          rw [clustersNeeded] at short ⊢
          omega
        rw [split, Nat.add_mul] at new most
        have one := Nat.le_mul_of_pos_left fs.vol.bpc (by omega : 0 < clustersNeeded fs fd length)
        rw [reached, if_neg short, none, Nat.sub_zero] at value
        have size := reaching.size
        rw [fatFileTruncate_same (by rw [reaching.moves.vol]; exact ready.toSized)
          (by rw [reaching.moves.vol]; omega) (by rw [reaching.moves.vol]; omega)]
        exact ⟨after, fd', chain', rfl, reaching.moves, reaching.holds⟩

theorem Call.Keeps.moves {call : Call}
    (keeps : call.Keeps fs fd) (word : ∀ length, call = .ftruncate length → length < 2 ^ 32) :
    ∃ after fd' chain', (call.run fs fd).2 = (after, fd') ∧ Moves fs after chain chain' ∧
      Holds fs.vol after.table fd' chain' := by
  cases call with
  | read iop count => exact read_moves ready holds iop count
  | write iop count buf => exact write_moves ready holds keeps
  | ftruncate length => exact ftruncate_moves ready holds (word length rfl) keeps

/-- The last close of a file that was removed gives its clusters back. -/
theorem fatFileClose_moves (clear : fd.linksNum ≤ 1 → LastClear fs fd) :
    ∃ after file chain', (fatFileClose fs fd).2 = (after, file) ∧ Moves fs after chain chain' ∧
      (∀ fd' ∈ file, Holds fs.vol after.table fd' chain') ∧ (file = none → chain' = []) := by
  rw [fatFileClose]
  by_cases shared : fd.linksNum > 1
  · have becomes := bufRelease_clusters ready
    have table : fs.bufRelease.2.table = fs.table := congrArg Clusters.table becomes.clusters
    rw [if_pos shared]
    refine ⟨fs.bufRelease.2, _, chain, rfl, becomes.moves_same rfl holds.toChained id, ?_, ?_⟩
    · intro fd' same
      cases same
      rw [table]
      exact { holds with }
    · intro gone
      cases gone
  · rw [if_neg shared]
    have cleared := (clear (Nat.not_lt.mp shared)).last ready holds
    obtain ⟨middle, fd', truncated, moves⟩ : ∃ middle fd', fatFileTruncate fs fd 0 =
        (.ok (), middle, fd') ∧ Moves fs middle chain [] := by
      rcases Nat.eq_zero_or_pos fd.fatFileSize with empty | some
      · rw [fatFileTruncate, if_pos (by omega), holds.empty ready.toSized empty]
        exact ⟨fs, fd, rfl, Moves.refl ready ⟨linked_nil, by simp⟩⟩
      · have small := ready.toSized.bpc_lt
        obtain ⟨middle, clusters, fd', done, becomes, truncated⟩ :=
          fatFileTruncate_spec ready holds some (by omega)
        have moves := truncated.moves becomes fun _ => cleared
        have none : clustersOf fs.vol 0 = 0 :=
          clustersOf_eq ready.toSized (by omega) (by have := ready.toSized.bpc_pos; omega)
        rw [none, List.take_zero] at moves
        exact ⟨middle, fd', done, moves⟩
    rw [truncated]
    exact ⟨middle.bufRelease.2, none, [], rfl, moves.then (bufRelease_clusters moves.ready),
      (fun _ same => by cases same), fun _ => rfl⟩

end

/-- The chains after a run: those of directories and of files that are not open are the same, a file
that was removed and closed for the last time owns nothing, and the count of the free clusters is still
right. -/
structure Keeping (state after : Files ι) (chains chains' : ι → List Nat) : Prop where
  conserved : Conserved after chains'
  vol : after.fs.vol = state.fs.vol
  others : ∀ owner, state.fd owner = none → after.fd owner = none ∧ chains' owner = chains owner
  closed : ∀ owner, (state.fd owner).isSome → after.fd owner = none → chains' owner = []
  counted : Counted state.fs.vol state.fs.clusters → Counted after.fs.vol after.fs.clusters

omit [DecidableEq ι] in
theorem Conserved.keeping (kept : Conserved st chains) : Keeping st st chains chains where
  conserved := kept
  vol := rfl
  others := fun _ absent => ⟨absent, rfl⟩
  closed := by
    intro owner before absent
    rw [absent] at before
    cases before
  counted := id

omit [DecidableEq ι] in
theorem Keeping.trans {first second third : Files ι} {old middle new : ι → List Nat}
    (left : Keeping first second old middle) (right : Keeping second third middle new) :
    Keeping first third old new where
  conserved := right.conserved
  vol := right.vol.trans left.vol
  others := by
    intro owner absent
    obtain ⟨still, same⟩ := left.others owner absent
    obtain ⟨absent', kept⟩ := right.others owner still
    exact ⟨absent', kept.trans same⟩
  closed := by
    intro owner before absent
    by_cases present : (second.fd owner).isSome
    · exact right.closed owner present absent
    · have gone := Option.not_isSome_iff_eq_none.mp present
      rw [(right.others owner gone).2]
      exact left.closed owner before gone
  counted := fun right' => right.counted (left.counted right')

/-- A file that has a descriptor gets another one and another chain. -/
theorem Conserved.moved (conserved : Conserved st chains) {file : ι} (there : st.fd file = some fd)
    (moves : Moves st.fs after (chains file) chain') {kept : Option FileFd}
    (holds : ∀ fd' ∈ kept, Holds st.fs.vol after.table fd' chain') (gone : kept = none → chain' = []) :
    Keeping st ⟨after, Function.update st.fd file kept⟩ chains
      (Function.update chains file chain') where
  conserved := conserved.update moves holds
  vol := moves.vol
  others := by
    intro owner absent
    have distinct : owner ≠ file := by
      rintro rfl
      rw [there] at absent
      cases absent
    dsimp only
    rw [update_of_ne distinct, update_of_ne distinct]
    exact ⟨absent, rfl⟩
  closed := by
    intro owner before absent
    dsimp only at absent
    by_cases same : owner = file
    · subst same
      rw [update_self] at absent ⊢
      exact gone absent
    · rw [update_of_ne same] at absent
      rw [absent] at before
      cases before
  counted := by
    intro right
    rw [moves.vol]
    exact moves.counted right

/-- An operation that meets its condition keeps the chains. -/
theorem Conserved.step (conserved : Conserved st chains) {op : Op ι} (permitted : op.Permitted st)
    (keeps : op.Keeps st) : ∃ chains', Keeping st (op.run st) chains chains' := by
  cases op with
  | call file request =>
    rw [Op.run]
    cases there : st.fd file with
    | none => exact ⟨chains, conserved.keeping⟩
    | some fd =>
      obtain ⟨after, fd', chain', run, moves, kept⟩ :=
        (keeps fd there).moves conserved.ready (conserved.holds file fd there) (by
          rintro length rfl
          exact permitted (by rw [there]; rfl))
      dsimp only
      rw [congrArg Prod.fst run, congrArg Prod.snd run]
      refine ⟨_, conserved.moved there moves ?_ ?_⟩
      · intro same mem
        cases mem
        exact kept
      · intro gone
        cases gone
  | remove file =>
    rw [Op.run]
    cases there : st.fd file with
    | none => exact ⟨chains, conserved.keeping⟩
    | some fd =>
      have holds := conserved.holds file fd there
      refine ⟨_, conserved.moved there (Moves.refl conserved.ready holds.toChained) ?_ ?_⟩
      · intro same mem
        cases mem
        exact { holds with }
      · intro gone
        cases gone
  | close file =>
    rw [Op.run]
    cases there : st.fd file with
    | none => exact ⟨chains, conserved.keeping⟩
    | some fd =>
      obtain ⟨after, kept, chain', run, moves, known, gone⟩ :=
        fatFileClose_moves conserved.ready (conserved.holds file fd there) (keeps fd there)
      dsimp only
      rw [congrArg Prod.fst run, congrArg Prod.snd run]
      exact ⟨_, conserved.moved there moves known gone⟩

/-- In every run whose operations meet the condition the chains of the files stay disjoint, they have
the clusters that the sizes need, every cluster that is not free is in one of them, and the count of the
free clusters stays right. -/
theorem cluster_chains_are_conserved (conserved : Conserved state chains) (ops : List (Op ι))
    (permitted : AllOps Op.Permitted state ops) (keeps : AllOps Op.Keeps state ops) :
    ∃ chains', Keeping state (state.runs ops) chains chains' := by
  induction ops generalizing state chains with
  | nil => exact ⟨chains, conserved.keeping⟩
  | cons op ops ih =>
    obtain ⟨middle, here⟩ := conserved.step permitted.1 keeps.1
    obtain ⟨chains', later⟩ := ih here.conserved permitted.2 keeps.2
    exact ⟨chains', here.trans later⟩

/-- A disk of six sectors with three clusters. Cluster 2 is a directory, the others are free. -/
def smallDisk : Content
  | 12 => 2
  | 13 => 1
  | 14 => 1
  | 16 => 1
  | 17 => 16
  | 19 => 6
  | 21 => 0xf0
  | 22 => 1
  | 512 => 0xf0
  | 513 => 0xff
  | 514 => 0xff
  | 515 => 0xff
  | 516 => 0x0f
  | _ => 0

def smallDevice : Device :=
  { mediaBlockSize := 512, size := 6, fits := by decide, bdsPerGroup := fun _ => 1, blockCount := 6 }

def small : FsInfo :=
  { vol := volumeOf smallDisk .fat12, freeCls := undefinedValue, nextCl := undefinedValue
    device := smallDevice, disk := smallDisk, unread := fun _ _ => 0
    c := { blkNum := 0, modified := false, actual := false, buf := fun _ => 0 } }

theorem small_accepted : fatInitVolumeInfo smallDisk (fun _ _ => 0) smallDevice = .ok small := rfl

theorem small_ready : Ready small := by
  apply ready_of_accepted small_accepted
  exact {
    toMounted := fatInitVolumeInfo_mounted small_accepted
    fits := by decide
    active := by decide
    room := by decide
    numbers := by decide }

/-- The directory, and an empty file. -/
def smallFiles : Files Bool := ⟨small, fun owner => if owner then some emptyFd else none⟩

def smallChains (owner : Bool) : List Nat := if owner then [] else [2]

theorem small_directory : Chained small.vol small.table [2] where
  steps := List.isChain_singleton 2
  last := by
    intro cln mem
    cases mem
    decide
  nodup := by decide
  valid := by
    intro cln mem
    obtain rfl := List.mem_singleton.mp mem
    decide

theorem small_inUse (cln : Nat) : inUse small.vol small.table cln = true ↔ cln = 2 := by
  constructor
  · intro used
    obtain ⟨⟨least, most⟩, used⟩ := inUse_eq_true.mp used
    have bounded : cln < 5 := Nat.lt_of_le_of_lt most (by decide)
    obtain rfl | rfl | rfl : cln = 2 ∨ cln = 3 ∨ cln = 4 := by omega
    · rfl
    · exact absurd (by decide) used
    · exact absurd (by decide) used
  · rintro rfl
    decide

theorem small_conserved : Conserved smallFiles smallChains where
  ready := small_ready
  chained := by
    rintro (_ | _)
    · exact small_directory
    · exact ⟨linked_nil, by simp [smallChains]⟩
  holds := by
    rintro (_ | _) fd ⟨⟩
    exact {
      toChained := ⟨linked_nil, by simp [smallChains]⟩
      plain := rfl
      regular := rfl
      limit := rfl
      word := by decide
      clusters := by decide
      first := fun some => absurd rfl some
      place := fun some => absurd rfl some
      lastCln := fun known => absurd rfl known }
  owned := by
    constructor
    · decide
    · rintro (_ | _) (_ | _) item one two
      · rfl
      · cases two
      · cases one
      · rfl
    · intro item
      refine (small_inUse item).trans ⟨?_, ?_⟩
      · rintro rfl
        exact Or.inr ⟨false, List.mem_singleton.mpr rfl⟩
      · rintro (outside | ⟨_ | _, inside⟩)
        · cases outside
        · exact List.mem_singleton.mp inside
        · cases inside
    · exact fun _ _ _ => rfl

/-- The file gets two clusters, gives one of them back, and is removed. -/
def smallOps : List (Op Bool) :=
  [.call true (.write ⟨0, false⟩ 600 fun _ => 7), .call true (.ftruncate 100), .remove true, .close true]

theorem small_permitted : AllOps Op.Permitted smallFiles smallOps :=
  ⟨trivial, fun _ => by decide, trivial, by unfold Op.Permitted; decide +kernel, trivial⟩

/-- Entries of a volume without reserved bits are clear. -/
theorem lastClear_of_type (small : fs.vol.type ≠ .fat32) : LastClear fs fd :=
  fun _ large => absurd large small

theorem small_keeps : AllOps Op.Keeps smallFiles smallOps := by
  refine ⟨?_, ?_, trivial, ?_, trivial⟩
  · rintro fd ⟨⟩
    refine ⟨by decide, Or.inl (by decide), fun _ _ => ⟨fun _ _ known => absurd rfl known, Or.inl ?_⟩⟩
    decide
  · have sizes : ∀ fd ∈ (Op.run smallFiles (.call true (.write ⟨0, false⟩ 600 fun _ => 7))).fd true,
        100 < fd.fatFileSize := by decide +kernel
    intro fd mem
    rw [Call.Keeps, if_pos (sizes fd mem)]
    exact ⟨by decide +kernel, fun _ => lastClear_of_type (by decide +kernel)⟩
  · exact fun fd _ _ => lastClear_of_type (by decide +kernel)

theorem cluster_chains_are_conserved_small :
    ∃ chains', Keeping smallFiles (smallFiles.runs smallOps) smallChains chains' :=
  cluster_chains_are_conserved small_conserved smallOps small_permitted small_keeps

/-- A file is extended by more clusters than are free: it is cut again, but it keeps the larger size. -/
theorem exhaustion_leaves_a_wrong_size :
    ¬ ∀ (state : Files Bool) (chains : Bool → List Nat), Conserved state chains →
      ∀ ops, AllOps Op.Permitted state ops →
        ∃ chains', Keeping state (state.runs ops) chains chains' := by
  intro claim
  obtain ⟨chains', keeping⟩ := claim smallFiles smallChains small_conserved
    [.call true (.ftruncate 1500)] ⟨fun _ => by decide, trivial⟩
  have vol := keeping.vol
  have found : ∀ fd ∈ (smallFiles.runs [.call true (.ftruncate 1500)]).fd true,
      fd.fatFileSize ≠ 0 ∧ ¬ Valid small.vol fd.cln := by decide +kernel
  have present : ((smallFiles.runs [.call true (.ftruncate 1500)]).fd true).isSome := by decide +kernel
  obtain ⟨fd, there⟩ := Option.isSome_iff_exists.mp present
  have holds := keeping.conserved.holds true fd there
  obtain ⟨size, outside⟩ := found fd there
  have valid := holds.valid _ (List.mem_of_getElem? (holds.first size))
  rw [vol] at valid
  exact outside valid

end Rtems.Dosfs
