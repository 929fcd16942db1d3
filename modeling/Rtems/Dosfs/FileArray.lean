import Rtems.Dosfs.MsdosFile

/-!
# A regular file is a byte array

The bytes of a file are those that were written last, and zeros where nothing was written. The
operations keep to this as long as there are free clusters, and the map of the descriptor names the
cluster that the chain leads to.
-/

namespace Rtems.Dosfs

open ByteRange FsInfo FileFd Links

/-- A read of a byte array. -/
def readArray (file : List UInt8) (offset count : Nat) : List UInt8 := (file.drop offset).take count

/-- A write to a byte array; a gap in front of it is filled with zeros. -/
def writeArray (file : List UInt8) (offset : Nat) (bytes : List UInt8) : List UInt8 :=
  if bytes.length = 0 then file
  else get (put (fun pos => file.getD pos 0) offset bytes) 0 (max file.length (offset + bytes.length))

/-- A byte array of another length; it is cut, or it is filled with zeros. -/
def resizeArray (file : List UInt8) (length : Nat) : List UInt8 :=
  get (fun pos => file.getD pos 0) 0 length

/-- Where a write begins. -/
def Iop.start (iop : Iop) (size : Nat) : Nat := if iop.append then size else iop.offset

/-- The effect of a call on a byte array. -/
def Call.apply (file : List UInt8) : Call → Answer × List UInt8
  | .read iop count =>
    let bytes := readArray file iop.offset count
    (.bytes bytes { iop with offset := iop.offset + bytes.length }, file)
  | .write iop count buf =>
    let start := iop.start file.length
    (.count count { iop with offset := start + count }, writeArray file start (get buf 0 count))
  | .ftruncate length => (.done, resizeArray file length)

def applies (file : List UInt8) : List Call → List Answer × List UInt8
  | [] => ([], file)
  | call :: calls =>
    let (answer, file) := call.apply file
    let (answers, file) := applies file calls
    (answer :: answers, file)

/-- The bytes of a file. -/
def Represents (fs : FsInfo) (fd : FileFd) (file : List UInt8) : Prop :=
  ∃ chain, Holds fs.vol fs.table fd chain ∧
    file = get (chainBytes fs.vol fs.data chain) 0 fd.fatFileSize

/-- The last cluster of a file that is not empty. -/
def lastCluster (fs : FsInfo) (fd : FileFd) : Nat :=
  fs.table^[clustersOf fs.vol fd.fatFileSize - 1] fd.cln

/-- There are clusters for a length, and the entry of the last cluster of the file can take a link. -/
structure Room (fs : FsInfo) (fd : FileFd) (length : Nat) : Prop where
  free : clustersOf fs.vol length - clustersOf fs.vol fd.fatFileSize ≤ freeCount fs.vol fs.table
  clear : clustersOf fs.vol fd.fatFileSize < clustersOf fs.vol length → fd.fatFileSize ≠ 0 →
    Clear fs.vol.type (fs.table (lastCluster fs fd))

/-- Where the bytes of a call end. -/
def Call.sum (fd : FileFd) : Call → Nat
  | .read iop count => iop.offset + count
  | .write iop count _ => iop.start fd.fatFileSize + count
  | .ftruncate length => length

/-- The length that a call needs clusters for. -/
def Call.length (fd : FileFd) : Call → Nat
  | .read _ _ => 0
  | .write iop count _ => iop.start fd.fatFileSize + count
  | .ftruncate length => length

/-- A call with a sum that is not too large and with enough free clusters. -/
structure Call.Fits (fs : FsInfo) (fd : FileFd) (call : Call) : Prop where
  bounded : call.sum fd < 2 ^ 32 - fs.vol.bpc
  free : clustersOf fs.vol (call.length fd) - clustersOf fs.vol fd.fatFileSize ≤
    freeCount fs.vol fs.table

/-- A call that works on the file as on a byte array: a write behind the end of the file is not one
of zero bytes, and the reserved bits of the last entry are clear when clusters are put behind it. -/
structure Call.Meets (fs : FsInfo) (fd : FileFd) (call : Call) : Prop extends call.Fits fs fd where
  gap : ∀ iop count buf, call = .write iop count buf →
    0 < count ∨ iop.start fd.fatFileSize ≤ fd.fatFileSize
  clear : clustersOf fs.vol fd.fatFileSize < clustersOf fs.vol (call.length fd) →
    fd.fatFileSize ≠ 0 → Clear fs.vol.type (fs.table (lastCluster fs fd))

/-- All calls of a run have a property in the state before them. -/
def AllCalls (property : FsInfo → FileFd → Call → Prop) (fs : FsInfo) (fd : FileFd) :
    List Call → Prop
  | [] => True
  | call :: calls =>
    property fs fd call ∧ AllCalls property (call.run fs fd).2.1 (call.run fs fd).2.2 calls

/-- The map of the descriptor names the cluster that the chain leads to. -/
def Positioned (fs : FsInfo) (fd : FileFd) : Prop :=
  fd.fatFileSize ≠ 0 → fs.table^[fd.map.fileCln] fd.cln = fd.map.diskCln

variable {fs after : FsInfo} {fd fd' : FileFd} {file : List UInt8} {chain : List Nat}

variable {vol : Volume} {table : Nat → Nat}

/-- The chain is what the links lead to. -/
theorem Holds.iterate (holds : Holds vol table fd chain)
    (known : fd.fatFileSize ≠ 0) {index cln : Nat} (there : chain[index]? = some cln) :
    table^[index] fd.cln = cln := by
  induction index generalizing cln with
  | zero =>
    rw [holds.first known] at there
    exact Option.some_inj.mp there
  | succ index ih =>
    have inside := (List.getElem?_eq_some_iff.mp there).1
    have before := List.getElem?_eq_getElem (Nat.lt_of_succ_lt inside)
    rw [Function.iterate_succ_apply', ih before]
    exact holds.step before there

theorem Represents.positioned (rep : Represents fs fd file) : Positioned fs fd := by
  obtain ⟨chain, holds, _⟩ := rep
  exact fun known => holds.iterate known (holds.place known)

theorem Represents.length (rep : Represents fs fd file) : file.length = fd.fatFileSize := by
  obtain ⟨chain, _, rfl⟩ := rep
  exact length_get

theorem Call.Meets.room {call : Call} (meets : call.Meets fs fd) : Room fs fd (call.length fd) :=
  ⟨meets.free, meets.clear⟩

/-- Where the condition is about the last entry of the chain. -/
theorem Room.last {length : Nat} (room : Room fs fd length) (ready : Ready fs)
    (holds : Holds fs.vol fs.table fd chain) (more : chain.length < clustersOf fs.vol length) :
    ∀ cln ∈ chain.getLast?, Clear fs.vol.type (fs.table cln) := by
  intro cln member
  rw [List.getLast?_eq_getElem?] at member
  have known := holds.size_ne ready.toSized member
  have same := holds.iterate known member
  rw [← same, holds.clusters]
  exact room.clear (holds.clusters ▸ more) known

/-- The file is extended if there is room. -/
theorem fatFileExtend_enough (ready : Ready fs) (holds : Holds fs.vol fs.table fd chain)
    {zeroFill : Bool} {newLength : Nat} (word : newLength < 2 ^ 32) (room : Room fs fd newLength)
    (behind : zeroFill = true → fd.fatFileSize < newLength) :
    ∃ after st fd' more, fatFileExtend fs fd zeroFill newLength = (.ok newLength, after, fd') ∧
      Becomes fs after st ∧ Extended fs.vol fs.clusters fd chain zeroFill st fd' more ∧
      (chain ++ more).length = clustersOf fs.vol (max fd.fatFileSize newLength) ∧
      fd'.fatFileSize ≤ max fd.fatFileSize newLength ∧ fd.fatFileSize ≤ fd'.fatFileSize := by
  by_cases longer : fd.fatFileSize < newLength
  · have most := clustersOf_le ready.toSized
      (Nat.le_trans (Nat.le_of_lt longer) (clustersOf_spec ready.toSized newLength).1)
    rw [← holds.clusters] at most
    have free := room.free
    rw [← holds.clusters] at free
    obtain ⟨after, st, becomes, outcome⟩ := @fatFileExtend_spec fs fd chain ready holds zeroFill
      newLength (clustersOf fs.vol newLength - chain.length) longer word (by omega)
      fun some _ => room.last ready holds (by omega)
    rcases outcome with ⟨_, none, _⟩ |
      ⟨length, fd', more, done, extended, count, least, _, all, size, _⟩
    · omega
    · rw [reached, if_pos free] at all
      rw [all] at done size
      refine ⟨after, st, fd', more, done, becomes, extended, ?_, ?_, ?_⟩
      · rw [List.length_append, Nat.max_eq_right (Nat.le_of_lt longer)]
        omega
      · split at size <;> omega
      · split at size <;> omega
  · have unasked : zeroFill = false := by
      cases zeroFill with
      | false => rfl
      | true => exact absurd (behind rfl) longer
    subst unasked
    refine ⟨fs, fs.clusters, fd, [], ?_, becomes_self ready, ?_, ?_, ?_, le_refl _⟩
    · rw [fatFileExtend, if_pos (by omega)]
    · refine ⟨⟨rfl, rfl, rfl, rfl, rfl⟩, ?_, by simp, fun _ _ _ => rfl, fun _ _ _ => rfl, ?_, ?_, id⟩
      · rw [List.append_nil]
        exact holds
      · rw [List.append_nil]
        exact fun _ _ => rfl
      · exact fun zeroed => by cases zeroed
    · rw [List.append_nil, Nat.max_eq_left (by omega), holds.clusters]
    · omega

variable {count : Nat}

/-- A read returns the bytes of the array. -/
theorem Represents.read (ready : Ready fs) (rep : Represents fs fd file) {iop : Iop}
    (meets : (Call.read iop count).Meets fs fd) :
    ∃ after fd', (Call.read iop count).run fs fd =
        (((Call.read iop count).apply file).1, after, fd') ∧ Ready after ∧
      Represents after fd' ((Call.read iop count).apply file).2 := by
  obtain ⟨chain, holds, rfl⟩ := rep
  have bounded : iop.offset + count < 2 ^ 32 - fs.vol.bpc := meets.bounded
  obtain ⟨after, fileCln, diskCln, read, quiet, sought⟩ :=
    fatFileRead_spec ready holds iop.offset count
  have array : readArray (get (chainBytes fs.vol fs.data chain) 0 fd.fatFileSize) iop.offset count =
      get (chainBytes fs.vol fs.data chain) iop.offset (min count (fd.fatFileSize - iop.offset)) := by
    rw [readArray, drop_get, take_get, Nat.zero_add]
  have table : after.table = fs.table := congrArg Clusters.table quiet.clusters
  have data : after.data = fs.data := congrArg Clusters.data quiet.clusters
  refine ⟨after, fd.seek fileCln diskCln, ?_, quiet.ready, chain, ?_, ?_⟩
  · rw [Call.run, msdosFileRead, Nat.mod_eq_of_lt (by omega), Nat.mod_eq_of_lt (by omega), read,
      Call.apply, array]
  · rw [quiet.vol, table]
    exact sought
  · rw [quiet.vol, data]
    rfl

/-- The array after a write to the clusters of a file. -/
theorem writeArray_eq {before st : Clusters} {data : Nat → Nat → UInt8}
    {start : Nat} {bytes : List UInt8} {more : List Nat} (nonempty : bytes.length ≠ 0)
    (extended : Extended vol before fd chain (decide (start > fd.fatFileSize)) st fd' more)
    (written : Written vol (chain ++ more) st.data data start bytes) :
    writeArray (get (chainBytes vol before.data chain) 0 fd.fatFileSize) start bytes =
      get (chainBytes vol data (chain ++ more)) 0 (max fd.fatFileSize (start + bytes.length)) := by
  rw [writeArray, if_neg nonempty, length_get]
  apply get_congr
  intro pos _ inside
  rw [written.bytes]
  by_cases within : start ≤ pos ∧ pos < start + bytes.length
  · obtain ⟨index, rfl⟩ : ∃ index, pos = start + index := ⟨pos - start, by omega⟩
    rw [put_inside (by omega), put_inside (by omega)]
  · rw [put_outside (by omega), put_outside (by omega)]
    by_cases old : pos < fd.fatFileSize
    · rw [getD_get old, Nat.zero_add, extended.bytes pos old]
    · rw [List.getD_eq_default _ _ (by rw [length_get]; omega)]
      exact (extended.zeros (by simp; omega) pos (by omega)).symm

/-- The size of a file is set to one that its clusters are for. -/
theorem Holds.resize (holds : Holds vol table fd chain)
    {size : Nat} (word : size < 2 ^ 32) (clusters : chain.length = clustersOf vol size)
    (known : fd.fatFileSize ≠ 0 ∨ size = 0) : Holds vol table (fd.setFileSize size) chain := by
  have same : (fd.setFileSize size).fatFileSize = size := Nat.mod_eq_of_lt word
  exact { holds with
    word := by rw [same]; exact word
    clusters := by rw [same]; exact clusters
    first := by
      rw [same]
      intro some
      exact holds.first (known.resolve_right some)
    place := by
      rw [same]
      intro some
      exact holds.place (known.resolve_right some) }

/-- Bytes are written to a file. -/
theorem fatFileWrite_enough (ready : Ready fs) (holds : Holds fs.vol fs.table fd chain)
    {start : Nat} (buf : Content) (some : 0 < count)
    (word : start + count < 2 ^ 32 - fs.vol.bpc) (room : Room fs fd (start + count)) :
    ∃ after fd' more, fatFileWrite fs fd start count buf = (.ok count, after, fd') ∧ Ready after ∧
      after.vol = fs.vol ∧ Holds fs.vol after.table fd' (chain ++ more) ∧
      (chain ++ more).length = clustersOf fs.vol (max fd.fatFileSize (start + count)) ∧
      fd.fatFileSize ≤ fd'.fatFileSize ∧ fd'.fatFileSize ≤ max fd.fatFileSize (start + count) ∧
      fd'.fatFileSize ≠ 0 ∧
      writeArray (get (chainBytes fs.vol fs.data chain) 0 fd.fatFileSize) start (get buf 0 count) =
        get (chainBytes fs.vol after.data (chain ++ more)) 0
          (max fd.fatFileSize (start + count)) := by
  obtain ⟨middle, st, fd1, more, extend, becomes, extended, clusters, most, least⟩ :=
    @fatFileExtend_enough fs fd chain ready holds (decide (start > fd.fatFileSize)) (start + count)
      (by omega) room (by simp; omega)
  have table : middle.table = st.table := congrArg Clusters.table becomes.clusters
  have data : middle.data = st.data := congrArg Clusters.data becomes.clusters
  have fits := (clustersOf_spec ready.toSized (max fd.fatFileSize (start + count))).1
  rw [← clusters] at fits
  have length : (get buf 0 count).length = count := length_get
  obtain ⟨after, fileCln, diskCln, changed, wrote, finished, written, sought⟩ :=
    @fatFileWriteFat32OrNonRootDir_spec middle fd1 (chain ++ more) becomes.ready
      (by rw [becomes.vol, table]; exact extended.holds) start (get buf 0 count) (by omega)
      (by omega) (by rw [becomes.vol]; omega)
  rw [becomes.vol] at written sought
  rw [data] at written
  have known : fd1.fatFileSize ≠ 0 := by
    have inside : 0 < (chain ++ more).length := by
      by_contra none
      rw [Nat.eq_zero_of_not_pos none, Nat.zero_mul] at fits
      omega
    exact extended.holds.size_ne ready.toSized (List.getElem?_eq_getElem inside)
  have limit := holds.limit
  have unlimited : ¬ start ≥ fd.sizeLimit ∧ ¬ count > fd.sizeLimit - start := by
    rw [limit, msdosMaxFileSize]
    omega
  have plain : fd1.isFat12OrFat16RootDir fs.vol.type = false := by
    rw [isFat12OrFat16RootDir, extended.holds.plain, Bool.false_and]
  have afterTable : after.table = middle.table := congrArg Clusters.table finished.clusters
  have afterData : after.data = changed := congrArg Clusters.data finished.clusters
  refine ⟨after, fd1.seek fileCln diskCln, more, ?_, finished.ready, finished.vol.trans becomes.vol,
    ?_, clusters, least, most, known, ?_⟩
  · rw [fatFileWrite]
    dsimp only
    rw [if_neg (by omega), if_neg unlimited.1, if_neg unlimited.2, Nat.mod_eq_of_lt (by omega), extend]
    dsimp only
    rw [if_neg (Classical.not_not.mpr rfl), becomes.vol, plain, if_neg (by decide), wrote, length]
  · rw [afterTable]
    exact sought
  · have same := writeArray_eq (by omega) extended written
    rw [length] at same
    rw [afterData]
    exact same

/-- A write changes the bytes of the array. -/
theorem Represents.write (ready : Ready fs) (rep : Represents fs fd file) {iop : Iop}
    {buf : Content} (meets : (Call.write iop count buf).Meets fs fd) :
    ∃ after fd', (Call.write iop count buf).run fs fd =
        (((Call.write iop count buf).apply file).1, after, fd') ∧ Ready after ∧
      Represents after fd' ((Call.write iop count buf).apply file).2 := by
  have size := rep.length
  obtain ⟨chain, holds, rfl⟩ := rep
  have word : iop.start fd.fatFileSize + count < 2 ^ 32 - fs.vol.bpc := meets.bounded
  have gap := meets.gap iop count buf rfl
  have room : Room fs fd (iop.start fd.fatFileSize + count) := meets.room
  have begins : (if iop.append then { iop with offset := fd.fatFileSize } else iop) =
      { iop with offset := iop.start fd.fatFileSize } := by
    rw [Iop.start]
    split <;> rfl
  rw [Call.run, msdosFileWrite, begins, Call.apply]
  dsimp only
  rw [size]
  generalize iop.start fd.fatFileSize = start at word gap room
  rw [Nat.mod_eq_of_lt (by omega : start < 2 ^ 32), Nat.mod_eq_of_lt (by omega : count < 2 ^ 32)]
  rcases Nat.eq_zero_or_pos count with rfl | some
  · rw [fatFileWrite]
    rw [if_pos rfl]
    dsimp only
    rw [if_neg (by omega)]
    refine ⟨fs, fd, rfl, ready, chain, holds, ?_⟩
    rw [writeArray, length_get, if_pos rfl]
  · obtain ⟨after, fd', more, wrote, finished, vol, sought, clusters, least, most, known, array⟩ :=
      fatFileWrite_enough ready holds buf some word room
    rw [wrote]
    refine ⟨after, _, rfl, finished, chain ++ more, ?_, ?_⟩
    · rw [vol]
      split
      case isTrue beyond =>
        exact sought.resize (by omega) (by rw [clusters]; congr 1; omega) (Or.inl known)
      case isFalse => exact sought
    · rw [array, vol]
      congr 1
      split
      case isTrue beyond =>
        refine Eq.trans ?_ (Nat.mod_eq_of_lt (by omega : start + count < 2 ^ 32)).symm
        omega
      case isFalse => omega

theorem chainBytes_take (data : Nat → Nat → UInt8) {pos : Nat} (inside : pos < count * vol.bpc) :
    chainBytes vol data (chain.take count) pos = chainBytes vol data chain pos := by
  have index : pos / vol.bpc < count := Nat.div_lt_of_lt_mul (by rwa [Nat.mul_comm])
  rw [chainBytes, chainBytes, List.getElem?_take_of_lt index]

/-- A change of the length changes the length of the array. -/
theorem Represents.ftruncate (ready : Ready fs) (rep : Represents fs fd file) {length : Nat}
    (meets : (Call.ftruncate length).Meets fs fd) :
    ∃ after fd', (Call.ftruncate length).run fs fd =
        (((Call.ftruncate length).apply file).1, after, fd') ∧ Ready after ∧
      Represents after fd' ((Call.ftruncate length).apply file).2 := by
  obtain ⟨chain, holds, rfl⟩ := rep
  have word : length < 2 ^ 32 - fs.vol.bpc := meets.bounded
  have room : Room fs fd length := meets.room
  rw [Call.run, msdosFileFtruncate, Call.apply]
  dsimp only
  rw [Nat.mod_eq_of_lt (by omega : length < 2 ^ 32)]
  have size : ∀ fd : FileFd, (fd.setFileSize length) = { fd with fatFileSize := length } := by
    intro fd
    rw [FileFd.setFileSize, Nat.mod_eq_of_lt (by omega : length < 2 ^ 32)]
  by_cases shorter : length < fd.fatFileSize
  · obtain ⟨after, st, fd', done, becomes, truncated⟩ :=
      fatFileTruncate_spec ready holds shorter (by omega)
    have table : after.table = st.table := congrArg Clusters.table becomes.clusters
    have data : after.data = fs.data :=
      (congrArg Clusters.data becomes.clusters).trans truncated.data
    rw [if_pos shorter, done]
    refine ⟨after, _, rfl, becomes.ready, chain.take (clustersOf fs.vol length), ?_, ?_⟩
    · rw [becomes.vol, table, size]
      exact truncated.holds
    · rw [becomes.vol, data, size, resizeArray]
      apply get_congr
      intro pos _ inside
      have fits := (clustersOf_spec ready.toSized length).1
      rw [getD_get (by omega), Nat.zero_add]
      exact (chainBytes_take fs.data (by omega)).symm
  · rw [if_neg shorter]
    by_cases longer : fd.fatFileSize < length
    · obtain ⟨after, st, fd', more, done, becomes, extended, clusters, most, least⟩ :=
        @fatFileExtend_enough fs fd chain ready holds true length (by omega) room fun _ => longer
      have table : after.table = st.table := congrArg Clusters.table becomes.clusters
      have data : after.data = st.data := congrArg Clusters.data becomes.clusters
      rw [Nat.max_eq_right (Nat.le_of_lt longer)] at clusters most
      have fits := (clustersOf_spec ready.toSized length).1
      rw [← clusters] at fits
      have known : fd'.fatFileSize ≠ 0 := by
        have inside : 0 < (chain ++ more).length := by
          by_contra none
          rw [Nat.eq_zero_of_not_pos none, Nat.zero_mul] at fits
          omega
        exact extended.holds.size_ne ready.toSized (List.getElem?_eq_getElem inside)
      rw [done]
      dsimp only
      rw [if_neg (Classical.not_not.mpr rfl)]
      refine ⟨after, _, rfl, becomes.ready, chain ++ more, ?_, ?_⟩
      · rw [becomes.vol, table]
        exact extended.holds.resize (by omega) clusters (Or.inl known)
      · rw [becomes.vol, data, size, resizeArray]
        apply get_congr
        intro pos _ inside
        by_cases old : pos < fd.fatFileSize
        · rw [getD_get old, Nat.zero_add]
          exact (extended.bytes pos old).symm
        · rw [List.getD_eq_default _ _ (by rw [length_get]; omega)]
          exact (extended.zeros rfl pos (by omega)).symm
    · obtain rfl : length = fd.fatFileSize := by omega
      rw [fatFileExtend, if_pos (le_refl _)]
      dsimp only
      rw [if_neg (Classical.not_not.mpr rfl)]
      refine ⟨fs, _, rfl, ready, chain, ?_, ?_⟩
      · rw [size]
        exact holds
      · rw [size, resizeArray]
        apply get_congr
        intro pos _ inside
        rw [getD_get (by omega), Nat.zero_add]

/-- Each call works on the array. -/
theorem Represents.run (ready : Ready fs) (rep : Represents fs fd file) {call : Call}
    (meets : call.Meets fs fd) :
    (call.run fs fd).1 = (call.apply file).1 ∧ Ready (call.run fs fd).2.1 ∧
      Represents (call.run fs fd).2.1 (call.run fs fd).2.2 (call.apply file).2 := by
  have step : ∃ after fd', call.run fs fd = ((call.apply file).1, after, fd') ∧ Ready after ∧
      Represents after fd' (call.apply file).2 := by
    cases call with
    | read iop count => exact rep.read ready meets
    | write iop count buf => exact rep.write ready meets
    | ftruncate length => exact rep.ftruncate ready meets
  obtain ⟨after, fd', done, finished, kept⟩ := step
  rw [done]
  exact ⟨rfl, finished, kept⟩

theorem Represents.calls (ready : Ready fs) (rep : Represents fs fd file) (calls : List Call)
    (meets : AllCalls Call.Meets fs fd calls) :
    (runs fs fd calls).1 = (applies file calls).1 ∧ Ready (runs fs fd calls).2.1 ∧
      Represents (runs fs fd calls).2.1 (runs fs fd calls).2.2 (applies file calls).2 := by
  induction calls generalizing fs fd file with
  | nil => exact ⟨rfl, ready, rep⟩
  | cons call calls ih =>
    obtain ⟨here, later⟩ := meets
    obtain ⟨answer, finished, kept⟩ := rep.run ready here
    obtain ⟨answers, final, last⟩ := ih finished kept later
    rw [runs, applies]
    dsimp only
    rw [answer, answers]
    exact ⟨rfl, final, last⟩

/-- A volume that was accepted and that is laid out on its device is ready. -/
theorem ready_of_accepted {disk : Content} {unread : Nat → Content} {device : Device}
    (accepted : fatInitVolumeInfo disk unread device = .ok fs) (laid : Laid fs.vol fs.device) :
    Ready fs := by
  have fresh : fs.c.actual = false ∧ fs.nextCl < 2 ^ 32 := by
    simp only [fatInitVolumeInfo] at accepted
    split at accepted
    case isTrue => cases accepted
    case isFalse =>
      split at accepted
      case h_1 => cases accepted
      case h_2 =>
        split at accepted
        case isTrue => cases accepted
        case isFalse =>
          split at accepted
          case isTrue => cases accepted
          case isFalse =>
            split at accepted
            case h_1 => cases accepted
            case h_2 =>
              split at accepted
              case h_1 => cases accepted
              case h_2 freeCls nextCl read =>
                cases accepted
                refine ⟨rfl, ?_⟩
                dsimp only
                rw [readInfoSector] at read
                split at read
                · cases read
                  decide
                · split at read
                  · cases read
                  · split at read
                    · cases read
                    · split at read
                      · cases read
                      · cases read
                        exact getVal_lt _ _ 4
  have unused : ∀ P : Prop, fs.c.actual = true → P := by
    intro P actual
    rw [fresh.1] at actual
    cases actual
  exact { laid with
    word := unused _
    there := unused _
    same := unused _
    home := unused _
    nextWord := fresh.2 }

/-- A regular file is a byte array in every run whose calls meet the condition: reads return the
bytes that were written last and zeros in the gaps, and the map names the cluster that the chain
leads to. -/
theorem regular_file_is_byte_array (ready : Ready fs) (represents : Represents fs fd file)
    (calls : List Call) (meets : AllCalls Call.Meets fs fd calls) :
    (runs fs fd calls).1 = (applies file calls).1 ∧
      Represents (runs fs fd calls).2.1 (runs fs fd calls).2.2 (applies file calls).2 ∧
      Positioned (runs fs fd calls).2.1 (runs fs fd calls).2.2 := by
  obtain ⟨answers, _, kept⟩ := represents.calls ready calls meets
  exact ⟨answers, kept, kept.positioned⟩

/-- A disk of 66100 sectors: clusters of one sector and one FAT. The entry of cluster 3 is the end of
a chain whose reserved bits are set. -/
def cardDisk : Content
  | 12 => 2
  | 13 => 1
  | 14 => 32
  | 16 => 1
  | 32 => 0x34
  | 33 => 0x02
  | 34 => 0x01
  | 36 => 0x08
  | 37 => 0x02
  | 44 => 2
  | 48 => 1
  | 512 => 0x52
  | 513 => 0x52
  | 514 => 0x61
  | 515 => 0x41
  | 1000 => 0xff
  | 1001 => 0xff
  | 1002 => 0xff
  | 1003 => 0xff
  | 1004 => 4
  | 16392 => 0xff
  | 16393 => 0xff
  | 16394 => 0xff
  | 16395 => 0x0f
  | 16396 => 0xff
  | 16397 => 0xff
  | 16398 => 0xff
  | 16399 => 0xff
  | _ => 0

def cardDevice : Device :=
  { mediaBlockSize := 512, size := 66100, fits := by decide, bdsPerGroup := fun _ => 1
    blockCount := 66100 }

def card : FsInfo :=
  { vol := volumeOf cardDisk .fat32, freeCls := undefinedValue, nextCl := 4
    device := cardDevice, disk := cardDisk, unread := fun _ _ => 0
    c := { blkNum := 0, modified := false, actual := false, buf := fun _ => 0 } }

/-- The descriptor of a file of 512 bytes in cluster 3. -/
def cardFd : FileFd :=
  { ofRootDir := false, directory := false, linksNum := 1, sizeLimit := msdosMaxFileSize
    fatFileSize := 512, cln := 3, removed := false
    map := { fileCln := 0, diskCln := 3, lastCln := 3 } }

theorem card_accepted : fatInitVolumeInfo cardDisk (fun _ _ => 0) cardDevice = .ok card := rfl

theorem card_ready : Ready card := by
  apply ready_of_accepted card_accepted
  exact {
    toMounted := fatInitVolumeInfo_mounted card_accepted
    fits := by decide
    active := by decide
    room := by decide
    numbers := by decide }

theorem card_entry : card.table 3 = 0xffffffff := by decide

theorem card_holds : Holds card.vol card.table cardFd [3] where
  steps := List.isChain_singleton 3
  last := by
    intro cln member
    cases member
    rfl
  nodup := by decide
  valid := by
    intro cln member
    obtain rfl := List.mem_singleton.mp member
    decide
  plain := rfl
  regular := rfl
  limit := rfl
  word := by decide
  clusters := by decide
  first := fun _ => rfl
  place := fun _ => rfl
  lastCln := fun _ => rfl

theorem card_represents : Represents card cardFd (get (chainBytes card.vol card.data [3]) 0 512) :=
  ⟨[3], card_holds, rfl⟩

/-- Different free clusters of the volume are counted. -/
theorem length_le_freeCount (valid : ∀ cln ∈ chain, Valid vol cln)
    (nodup : chain.Nodup) (free : ∀ cln ∈ chain, table cln = genfatFree) :
    chain.length ≤ freeCount vol table := by
  have split := @freeCount_add vol chain table
    (fun cln => if cln ∈ chain then genfatEoc else table cln) valid nodup free
    (fun cln member => by rw [if_pos member]; decide) (fun cln outside => if_neg outside)
  omega

theorem card_free : 2 ≤ freeCount card.vol card.table := by
  exact @length_le_freeCount [4, 5] _ _ (by decide) (by decide) (by decide)

/-- The descriptor of an empty file. -/
def emptyFd : FileFd :=
  { cardFd with
    fatFileSize := 0, cln := 0
    map := { fileCln := 0, diskCln := 0, lastCln := undefinedValue } }

theorem empty_represents : Represents card emptyFd [] := by
  refine ⟨[], ?_, rfl⟩
  exact {
    toChained := ⟨linked_nil, by simp⟩
    plain := rfl
    regular := rfl
    limit := rfl
    word := by decide
    clusters := by decide
    first := fun some => absurd rfl some
    place := fun some => absurd rfl some
    lastCln := fun known => absurd rfl known }

/-- An empty file gets two clusters, and bytes are written to the second one. -/
def emptyCalls : List Call :=
  [.ftruncate 600, .write ⟨590, false⟩ 4 fun _ => 7, .read ⟨588, false⟩ 20]

theorem empty_meets : AllCalls Call.Meets card emptyFd emptyCalls := by
  refine ⟨⟨⟨by decide, ?_⟩, ?_, ?_⟩, ⟨⟨by decide +kernel, ?_⟩, ?_, ?_⟩,
    ⟨⟨by decide +kernel, ?_⟩, ?_, ?_⟩, trivial⟩
  · exact Nat.le_trans (by decide) card_free
  · rintro _ _ _ ⟨⟩
  · exact fun _ known => absurd rfl known
  · exact Nat.le_trans (by decide +kernel : _ ≤ 0) (Nat.zero_le _)
  · rintro _ _ _ ⟨⟩
    exact Or.inl (by decide)
  · exact fun less => absurd less (by decide +kernel)
  · exact Nat.le_trans (by decide +kernel : _ ≤ 0) (Nat.zero_le _)
  · rintro _ _ _ ⟨⟩
  · exact fun less => absurd less (by decide +kernel)

theorem regular_file_is_byte_array_card :
    (runs card emptyFd emptyCalls).1 = (applies [] emptyCalls).1 ∧
      Represents (runs card emptyFd emptyCalls).2.1 (runs card emptyFd emptyCalls).2.2
        (applies [] emptyCalls).2 ∧
      Positioned (runs card emptyFd emptyCalls).2.1 (runs card emptyFd emptyCalls).2.2 :=
  regular_file_is_byte_array card_ready empty_represents emptyCalls empty_meets

/-- A file whose last entry has its reserved bits set is extended, and the new cluster is lost. -/
theorem reserved_bits_break_the_chain :
    ¬ ∀ (fs : FsInfo) (fd : FileFd) (file : List UInt8), Ready fs → Represents fs fd file →
      ∀ calls, AllCalls Call.Fits fs fd calls → (runs fs fd calls).1 = (applies file calls).1 := by
  intro claim
  have fits : AllCalls Call.Fits card cardFd [.ftruncate 513, .read ⟨512, false⟩ 1] := by
    refine ⟨⟨by decide, ?_⟩, ⟨by decide +kernel, ?_⟩, trivial⟩
    · exact Nat.le_trans (by decide : _ ≤ 2) card_free
    · exact Nat.le_trans (by decide +kernel : _ ≤ 0) (Nat.zero_le _)
  have same := claim card cardFd _ card_ready card_represents _ fits
  have answers : (runs card cardFd [.ftruncate 513, .read ⟨512, false⟩ 1]).1 =
      [.done, .failed .eio] := by decide +kernel
  rw [answers] at same
  cases same

end Rtems.Dosfs
