import Mathlib.Data.List.Find
import Rtems.Dosfs.DescriptorSpecs
import Rtems.Dosfs.RootDirectory
import Rtems.Library.Transition

/-!
# Runs of the calls on open files

The files are opened, reopened, closed, removed and moved in any order.
-/

namespace Rtems.Dosfs

open Transition
open Function (update update_of_ne)
open Option (map_eq_some_iff)

variable {vol : Volume}

/-- A number of the pool, if there is one, does not overflow. -/
def Pool.Whole (base : Nat) : Option (Nat × Pool) → Prop
  | none => False
  | some (ino, pool) => ino = 0 ∨ base + pool.index < 2 ^ 32

/-- There is a number of the pool, and it does not overflow. -/
def Pool.Granted (base : Nat) : Option (Nat × Pool) → Prop
  | none => False
  | some (ino, pool) => ino ≠ 0 ∧ base + pool.index < 2 ^ 32

/-- A descriptor has a property if there is one. -/
def Fd.All (property : Fd → Prop) : Option Fd → Prop
  | none => True
  | some fd => property fd

/-- The condition on a call. Descriptors that are closed, removed or moved are open, and removed files are not removed
again and not moved. The clusters of a removed file can be freed. A number of the pool does not overflow, and a
file that is moved gets one if it needs one. -/
def Careful (vol : Volume) (state : OpenFiles) : FileCall → Prop
  | .openAt pos memory unknown => pos.There vol ∧
    (state.files.search vol state.files.vhash (constructKey vol pos) 0 = none → memory = true →
      state.files.fromPool vol (constructKey vol pos) = true →
        Pool.Whole (uinoBase vol) (Pool.getUniqueIno (uinoBase vol) unknown 33 state.files.pool))
  | .reopen el => 0 < state.opens el
  | .close el truncated => 0 < state.opens el ∧
    Fd.All (fun fd => fd.removed = true → fd.linksNum ≤ 1 → truncated = true) (state.files.fds el)
  | .markRemoved el => 0 < state.opens el ∧
    Fd.All (fun fd => fd.removed = false) (state.files.fds el)
  | .getNewInodeFor el pos unknown => 0 < state.opens el ∧ pos.There vol ∧
    Fd.All (fun fd => fd.removed = false ∧
      (state.files.fromPool vol (constructKey vol pos) = true →
        Pool.Granted (uinoBase vol) (Pool.getUniqueIno (uinoBase vol) unknown 33
          (state.files.freeIno vol fd.ino).pool))) (state.files.fds el)

instance (base : Nat) (given : Option (Nat × Pool)) : Decidable (Pool.Whole base given) :=
  match given with
  | none => inferInstanceAs (Decidable False)
  | some (_, _) => inferInstanceAs (Decidable (_ ∨ _))

instance (base : Nat) (given : Option (Nat × Pool)) : Decidable (Pool.Granted base given) :=
  match given with
  | none => inferInstanceAs (Decidable False)
  | some (_, _) => inferInstanceAs (Decidable (_ ∧ _))

instance (property : Fd → Prop) [∀ fd, Decidable (property fd)] (fd : Option Fd) :
    Decidable (Fd.All property fd) :=
  match fd with
  | none => .isTrue trivial
  | some fd => inferInstanceAs (Decidable (property fd))

instance (vol : Volume) (state : OpenFiles) (call : FileCall) : Decidable (Careful vol state call) :=
  match call with
  | .openAt .. => inferInstanceAs (Decidable (_ ∧ (_ → _ → _ → Pool.Whole _ _)))
  | .reopen _ => inferInstanceAs (Decidable (_ < _))
  | .close .. => inferInstanceAs (Decidable (_ ∧ Fd.All _ _))
  | .markRemoved _ => inferInstanceAs (Decidable (_ ∧ Fd.All _ _))
  | .getNewInodeFor .. => inferInstanceAs (Decidable (_ ∧ _ ∧ Fd.All _ _))

/-- No file was opened. -/
def OpenFiles.Unused (state : OpenFiles) : Prop :=
  (∀ el, state.files.fds el = none ∧ state.opens el = 0) ∧
    (∀ chain, state.files.vhash chain = [] ∧ state.files.rhash chain = []) ∧
    state.files.pool.size = 0x100 ∧ state.files.pool.index = 0

/-- No file was opened on an accepted volume whose entries have numbers that are words. -/
def OpenFiles.Initial (vol : Volume) (state : OpenFiles) : Prop :=
  vol.Sized ∧ Addressable vol ∧ state.Unused

variable {st : OpenFiles}
variable {state : OpenFiles}

namespace OpenFiles.Sound

theorem initial (initial : OpenFiles.Initial vol st) : st.Sound vol := by
  obtain ⟨_, _, fds, tables, size, index⟩ := initial
  constructor
  case fresh => exact fun el _ => (fds el).1
  case valid => simp [tables, fds]
  case validOnce => simp [tables]
  case removed => simp [tables, fds]
  case removedOnce => simp [tables]
  case there => simp [fds]
  case places => simp [fds]
  case links => simp [fds]
  case closed => exact fun el _ => (fds el).2
  case inos => simp [fds]
  case key => simp [fds]
  case number => simp [fds]
  case fit => exact ⟨⟨8, by decide, size⟩, by omega⟩

variable {files : FileTables}

/-- A search that looks at the same descriptors finds the same. -/
theorem search_congr {other : FileTables} {hash : Hash} {key1 key2 : Nat}
    (same : ∀ el, el ∈ hash (key1 % 2) → files.fds el = other.fds el) :
    files.search vol hash key1 key2 = other.search vol hash key1 key2 := by
  exact List.find?_congr fun el member => by rw [same el member]

/-- A table without a descriptor. -/
theorem delete_absent {hash : Hash} {el : Nat} (absent : ∀ chain, el ∉ hash chain) :
    hash.delete el = hash := funext fun chain => List.erase_of_not_mem (absent chain)

section

variable (sound : st.Sound vol) {el : Nat} {fd : Fd} (present : st.files.fds el = some fd)
include sound present

/-- A valid descriptor is not in the table of the removed ones, and the other way round. -/
theorem not_removed (valid : fd.removed = false) (chain : Nat) : el ∉ st.files.rhash chain := by
  intro member
  obtain ⟨_, present', removed, _⟩ := (sound.removed chain el).mp member
  cases present.symm.trans present'
  simp [valid] at removed

theorem not_valid (removed : fd.removed = true) (chain : Nat) : el ∉ st.files.vhash chain := by
  intro member
  obtain ⟨_, present', valid, _⟩ := (sound.valid chain el).mp member
  cases present.symm.trans present'
  simp [valid] at removed

/-- The bits of the other descriptors stay busy when the number of one goes back to the pool. -/
theorem spared_free : Spared vol st el (st.files.freeIno vol fd.ino).pool := by
  unfold FileTables.freeIno
  split
  case isFalse => exact ⟨sound.fit, fun _ _ _ _ _ _ _ busy inside => ⟨busy, inside⟩⟩
  case isTrue unique =>
    replace unique := of_decide_eq_true unique
    refine ⟨⟨sound.fit.size, sound.fit.index⟩, ?_⟩
    intro other fd' bit ne found pooled num busy inside
    refine ⟨?_, inside⟩
    have apart : bit ≠ minus fd.ino (uinoBase vol) := by
      rintro rfl
      have word : fd.ino < 2 ^ 32 := by
        cases own : st.pooled el with
        | true =>
          obtain ⟨_, _, word, _⟩ := sound.number el fd present own
          exact word
        | false =>
          rw [sound.key el fd present own]
          exact Nat.mod_lt _ (Nat.two_pow_pos 32)
      have same : fd'.ino = fd.ino := by
        rw [num, minus]
        omega
      exact ne (sound.inos other el fd' fd found present same)
    exact (update_of_ne apart ..).trans busy

end

/-- The end of a descriptor. -/
theorem close_last (sound : st.Sound vol) {el : Nat} {fd : Fd} (present : st.files.fds el = some fd) (few : fd.linksNum ≤ 1)
    {truncated : Bool} (freed : fd.removed = true → truncated = true) :
    Sound vol { st with
      files := st.files.fileClose vol truncated el fd
      opens := update st.opens el 0 } := by
  have spared : Spared vol st el st.files.pool :=
    ⟨sound.fit, fun _ _ _ _ _ _ _ busy inside => ⟨busy, inside⟩⟩
  rw [FileTables.fileClose, if_neg (by omega)]
  cases removed : fd.removed with
  | true =>
    have dropped := sound.drop el (sound.spared_free present)
    rw [delete_absent (sound.not_valid present removed)] at dropped
    rw [if_pos rfl, if_pos (freed removed)]
    exact dropped
  | false =>
    cases unique : inoIsUnique vol fd.ino with
    | true =>
      have closed := @relink vol st el fd sound 0 present
      rw [removed] at closed
      exact closed
    | false =>
      have dropped := sound.drop el spared
      rw [delete_absent (sound.not_removed present removed)] at dropped
      exact dropped

/-- A descriptor that is in the tables has an address. -/
theorem bound (sound : st.Sound vol) {el : Nat} {fd : Fd}
    (present : st.files.fds el = some fd) : el < st.files.fresh := by
  by_contra above
  rw [sound.fresh el (by omega)] at present
  cases present

/-- The state after a descriptor was taken out of the tables. -/
def without (state : OpenFiles) (el : Nat) (pool : Pool) : OpenFiles :=
  { state with
    files := { state.files.set el none with
      vhash := state.files.vhash.delete el
      rhash := state.files.rhash.delete el
      pool := pool }
    opens := Function.update state.opens el 0 }

variable {pos : Pos}

variable {unknown : Nat → Bool}

section

variable (sound : st.Sound vol)
include sound

/-- A descriptor is taken out of the tables and put into them with other contents. -/
theorem replace {el : Nat} {fd fd' : Fd} {pooled : Bool} {between pool : Pool}
    (present : st.files.fds el = some fd) (links : fd'.linksNum = fd.linksNum)
    (spared : Spared vol st el between)
    (spared' : Spared vol (without st el between) el pool)
    (new : Fresh vol (without st el between) el fd' pooled pool) :
    Sound vol { st with
      files := { st.files.set el (some fd') with
        vhash := enter vol false (st.files.vhash.delete el) el fd'
        rhash := enter vol true (st.files.rhash.delete el) el fd'
        pool := pool }
      pooled := update st.pooled el pooled } := by
  have placed := (sound.drop el spared).place (Function.update_self ..) (sound.bound present)
    (le_refl _) spared' new
  have opens : update (update st.opens el 0) el fd'.linksNum = st.opens := by
    rw [Function.update_idem, links, sound.links el fd present, Function.update_eq_self]
  rw [opens] at placed
  simpa [FileTables.set] using placed

/-- A descriptor becomes the one of a removed file. -/
theorem markRemoved {el : Nat} {fd : Fd}
    (present : st.files.fds el = some fd) (valid : fd.removed = false) :
    Sound vol { st with files := st.files.fileMarkRemoved vol el fd } := by
  have spared : Spared vol st el st.files.pool :=
    ⟨sound.fit, fun _ _ _ _ _ _ _ busy inside => ⟨busy, inside⟩⟩
  have spared' : Spared vol (without st el st.files.pool) el st.files.pool :=
    ⟨sound.fit, fun _ _ _ _ _ _ _ busy inside => ⟨busy, inside⟩⟩
  have new : Fresh vol (without st el st.files.pool) el { fd with removed := true }
      (st.pooled el) st.files.pool := by
    constructor
    case there => exact sound.there el fd present
    case place => simp
    case ino =>
      intro other fd' ne found same
      have found' : st.files.fds other = some fd' := (update_of_ne ne ..).symm.trans found
      exact ne (sound.inos other el fd' fd found' present same)
    case key => exact sound.key el fd present
    case number => exact sound.number el fd present
  have links : ({ fd with removed := true } : Fd).linksNum = fd.linksNum := rfl
  have replaced := sound.replace present links spared spared' new
  rw [Function.update_eq_self, delete_absent (sound.not_removed present valid)] at replaced
  exact replaced

/-- A descriptor moves to another position. -/
theorem move (addressable : Addressable vol) (sized : vol.Sized) {el : Nat} {fd : Fd}
    (present : st.files.fds el = some fd) (valid : fd.removed = false) (there : pos.There vol)
    (missed : st.files.search vol st.files.vhash (constructKey vol pos) 0 = none)
    (granted : st.files.fromPool vol (constructKey vol pos) = true → Pool.Granted (uinoBase vol) (Pool.getUniqueIno (uinoBase vol) unknown 33 (st.files.freeIno vol fd.ino).pool))
    (moved : st.files.fileGetNewInodeFor vol unknown el fd pos = some files) :
    Sound vol { st with
      files := files
      pooled := update st.pooled el (st.files.fromPool vol (constructKey vol pos)) } := by
  have spared := sound.spared_free present
  have rhash := delete_absent (sound.not_removed present valid)
  -- the search for removed files does not see the descriptor
  have source : (without st el (st.files.freeIno vol fd.ino).pool).files.fromPool vol
      (constructKey vol pos) = st.files.fromPool vol (constructKey vol pos) := by
    unfold FileTables.fromPool
    congr 1
    rw [without, rhash]
    refine search_congr fun other member => update_of_ne ?_ ..
    rintro rfl
    exact sound.not_removed present valid _ member
  obtain ⟨⟨ino, pool⟩, given, rfl⟩ := map_eq_some_iff.mp moved
  have given' : (without st el (st.files.freeIno vol fd.ino).pool).files.newIno vol unknown
      (constructKey vol pos) = some (ino, pool) := by
    rw [← given, FileTables.newIno, FileTables.newIno, source]
    rfl
  have apart : ∀ other fd', other ≠ el →
      (without st el (st.files.freeIno vol fd.ino).pool).files.fds other = some fd' →
      fd'.removed = false → fd'.pos ≠ pos := by
    intro other fd' ne found
    exact sound.search_missed missed ((update_of_ne ne ..).symm.trans found)
  have numbered : st.files.fromPool vol (constructKey vol pos) = true →
      ino ≠ 0 ∧ uinoBase vol + pool.index < 2 ^ 32 := by
    intro pooled
    have num := granted pooled
    have given'' : Pool.getUniqueIno (uinoBase vol) unknown 33
        (st.files.freeIno vol fd.ino).pool = some (ino, pool) := by
      rw [← given, FileTables.newIno]
      exact (if_pos pooled).symm
    rw [given''] at num
    exact num
  have dropped : Sound vol (without st el (st.files.freeIno vol fd.ino).pool) :=
    sound.drop el spared
  obtain ⟨spared', new⟩ := dropped.newIno_fresh addressable sized there apart given'
    (source ▸ numbered)
  have links : (⟨fd.linksNum, ino, false, pos⟩ : Fd).linksNum = fd.linksNum := rfl
  have replaced := sound.replace present links spared spared' (new fd.linksNum)
  rw [source, rhash] at replaced
  simp only [valid]
  exact replaced

/-- The laws of an open: it fails, it finds the descriptor of the file, or it makes one. -/
theorem fileOpen (addressable : Addressable vol) (sized : vol.Sized) {memory : Bool}
    {next : OpenFiles} (careful : Careful vol st (.openAt pos memory unknown))
    (taken : st.step vol (.openAt pos memory unknown) = some next) : next.Sound vol := by
  obtain ⟨there, whole⟩ := careful
  simp only [step, FileTables.fileOpen] at taken
  split at taken
  case h_1 el found =>
    obtain ⟨fd, present, _, _⟩ := sound.search_valid addressable sized there found
    have linked := @relink vol st el fd sound (fd.linksNum + 1) present
    rw [sound.links el fd present] at linked
    simp only [Option.map_some, present] at taken
    cases taken
    rw [sound.links el fd present]
    exact linked
  case h_2 missed =>
    split at taken
    case isTrue =>
      cases taken
      exact sound
    case isFalse enough =>
      obtain ⟨⟨result, files⟩, made, rfl⟩ := map_eq_some_iff.mp taken
      obtain ⟨⟨ino, pool⟩, given, made⟩ := map_eq_some_iff.mp made
      have pooled : st.files.fromPool vol (constructKey vol pos) = true →
          Pool.getUniqueIno (uinoBase vol) unknown 33 st.files.pool = some (ino, pool) := by
        intro source
        rw [← given, FileTables.newIno]
        exact (if_pos source).symm
      split at made
      case isTrue failed =>
        cases made
        have law := Pool.getUniqueIno_spec 33 sound.fit (pooled failed.1)
        exact sound.repool (Spared.of_given _ law)
      case isFalse granted =>
        have numbered : st.files.fromPool vol (constructKey vol pos) = true →
            ino ≠ 0 ∧ uinoBase vol + pool.index < 2 ^ 32 := by
          intro source
          have nonzero : ino ≠ 0 := fun zero => granted ⟨source, zero⟩
          have num := whole missed (by simpa using enough) source
          rw [pooled source] at num
          exact ⟨nonzero, num.resolve_left nonzero⟩
        have absent := sound.fresh st.files.fresh (le_refl _)
        obtain ⟨spared, new⟩ := sound.newIno_fresh addressable sized there
          (fun other fd _ present valid => sound.search_missed missed present valid) given numbered
        have placed := sound.place absent (Nat.lt_succ_self _) (Nat.le_succ _) spared (new 1)
        cases made
        simp only [absent, sound.closed _ absent]
        exact placed

end

/-- A careful call keeps the tables sound. -/
theorem step (sound : st.Sound vol) (addressable : Addressable vol) (sized : vol.Sized)
    {call : FileCall} {next : OpenFiles} (careful : Careful vol st call)
    (taken : st.step vol call = some next) : next.Sound vol := by
  cases call with
  | openAt pos memory unknown => exact sound.fileOpen addressable sized careful taken
  | reopen el =>
    obtain ⟨fd, present, rfl⟩ := map_eq_some_iff.mp taken
    have linked := @relink vol st el fd sound (fd.linksNum + 1) present
    rw [sound.links el fd present] at linked
    simp only [FileTables.fileReopen, sound.links el fd present]
    exact linked
  | close el truncated =>
    obtain ⟨fd, present, rfl⟩ := map_eq_some_iff.mp taken
    obtain ⟨_, freed⟩ := careful
    rw [present] at freed
    by_cases many : 1 < fd.linksNum
    · have linked := @relink vol st el fd sound (fd.linksNum - 1) present
      simp only [FileTables.fileClose, if_pos many]
      rwa [← sound.links el fd present]
    · have last : st.opens el - 1 = 0 := by
        rw [← sound.links el fd present]
        omega
      have closed := @close_last vol st sound el fd present (by omega) truncated
        fun removed => freed removed (by omega)
      rwa [last]
  | markRemoved el =>
    obtain ⟨fd, present, rfl⟩ := map_eq_some_iff.mp taken
    obtain ⟨_, valid⟩ := careful
    rw [present] at valid
    exact sound.markRemoved present valid
  | getNewInodeFor el pos unknown =>
    obtain ⟨fd, present, taken⟩ := Option.bind_eq_some_iff.mp taken
    obtain ⟨_, there, granted⟩ := careful
    rw [present] at granted
    split at taken
    case isTrue => cases taken
    case isFalse free =>
      obtain ⟨files, moved, rfl⟩ := map_eq_some_iff.mp taken
      exact sound.move addressable sized present granted.1 there (by simpa using free) granted.2 moved

/-- Every run leads to sound tables. -/
theorem trace {past : List OpenFiles}
    (run : Trace (OpenFiles.Initial vol) (Careful vol) (OpenFiles.step vol) past st) :
    Addressable vol ∧ vol.Sized ∧ st.Sound vol := by
  refine run.invariant (fun st => Addressable vol ∧ vol.Sized ∧ st.Sound vol)
    (fun st initial => ?_) ?_
  · exact ⟨initial.2.1, initial.1, OpenFiles.Sound.initial initial⟩
  · rintro st call next ⟨addressable, sized, sound⟩ careful taken
    exact ⟨addressable, sized, sound.step addressable sized careful taken⟩

/-- An open finds the descriptor of the file at the position, or there is none and it makes one. -/
theorem open_cases (sound : st.Sound vol) (addressable : Addressable vol) (sized : vol.Sized)
    (there : pos.There vol) {memory : Bool} {el : Nat}
    (opened : st.files.fileOpen vol memory unknown pos = some (.ok el, files)) :
    (∃ fd, files.fds el = some fd ∧ fd.removed = false ∧ fd.pos = pos) ∧
      ((∃ fd, st.files.fds el = some fd ∧ fd.removed = false ∧ fd.pos = pos) ∨
        el = st.files.fresh ∧
          st.files.search vol st.files.vhash (constructKey vol pos) 0 = none) := by
  rw [FileTables.fileOpen] at opened
  dsimp only at opened
  split at opened
  case h_1 found' found =>
    obtain ⟨fd, present, valid, same⟩ := sound.search_valid addressable sized there found
    obtain ⟨⟨⟩, rfl⟩ := Prod.mk.inj (Option.some.inj opened)
    refine ⟨⟨{ fd with linksNum := fd.linksNum + 1 }, ?_, valid, same⟩, .inl ⟨fd, present, valid, same⟩⟩
    simp [FileTables.set, present]
  case h_2 missed =>
    split at opened
    case isTrue => cases opened
    case isFalse =>
      obtain ⟨⟨ino, pool⟩, _, made⟩ := map_eq_some_iff.mp opened
      split at made
      case isTrue => cases made
      case isFalse =>
        obtain ⟨⟨⟩, rfl⟩ := Prod.mk.inj made
        exact ⟨⟨⟨1, ino, false, pos⟩, by simp [FileTables.set], rfl, rfl⟩, .inr ⟨rfl, missed⟩⟩

end OpenFiles.Sound

/-- In every run whose calls are careful, on a volume whose entries have numbers that are words: two opens give the
same descriptor exactly if they are of the same position, the links are the opens that are not closed, two
descriptors have two inode numbers, and the numbers of the pool are recognised. -/
theorem descriptors_are_those_of_the_files {past : List OpenFiles}
    (run : Trace (OpenFiles.Initial vol) (Careful vol) (OpenFiles.step vol) past state) :
    (∀ pos pos' memory memory' unknown unknown' el el' files files',
      Careful vol state (.openAt pos memory unknown) → pos'.There vol →
      state.files.fileOpen vol memory unknown pos = some (.ok el, files) →
      files.fileOpen vol memory' unknown' pos' = some (.ok el', files') → (el = el' ↔ pos = pos')) ∧
    (∀ el fd, state.files.fds el = some fd → fd.linksNum = state.opens el) ∧
    (∀ el el' fd fd', state.files.fds el = some fd → state.files.fds el' = some fd' →
      fd.ino = fd'.ino → el = el') ∧
    ∀ el fd, state.files.fds el = some fd → inoIsUnique vol fd.ino = state.pooled el := by
  obtain ⟨addressable, sized, sound⟩ := OpenFiles.Sound.trace run
  refine ⟨?_, sound.links, sound.inos, ?_⟩
  · intro pos pos' memory memory' unknown unknown' el el' files files' careful there' opened opened'
    obtain ⟨⟨fd, present, valid, same⟩, _⟩ := sound.open_cases addressable sized careful.1 opened
    obtain ⟨next, taken, rfl⟩ : ∃ next, state.step vol (.openAt pos memory unknown) = some next ∧
        next.files = files := by
      rw [OpenFiles.step, opened]
      exact ⟨_, rfl, rfl⟩
    have sound' := sound.fileOpen addressable sized careful taken
    obtain ⟨_, ⟨fd', present', valid', same'⟩ | ⟨rfl, missed⟩⟩ :=
      sound'.open_cases addressable sized there' opened'
    · constructor
      · rintro rfl
        cases present.symm.trans present'
        exact same.symm.trans same'
      · intro place
        exact sound'.places el el' fd fd' present present' valid valid' (by rw [same, same', place])
    · have address := sound'.bound present
      constructor
      · omega
      · intro place
        exact absurd (same.trans place) (sound'.search_missed missed present valid)
  · intro el fd present
    cases pooled : state.pooled el with
    | true =>
      obtain ⟨bit, ino, _⟩ := sound.number el fd present pooled
      exact decide_eq_true (by omega)
    | false =>
      obtain ⟨_, below⟩ := addressable.key_lt sized (sound.there el fd present)
      have own := sound.key el fd present pooled
      exact decide_eq_false (by omega)

/-- The files behind the mount. -/
def unopened : OpenFiles where
  files := { fds := fun _ => none, fresh := 0, vhash := fun _ => [], rhash := fun _ => []
             pool := ⟨0x100, 0, fun _ => false⟩ }
  opens := fun _ => 0
  pooled := fun _ => false

theorem unopened_unused : unopened.Unused := ⟨fun _ => ⟨rfl, rfl⟩, fun _ => ⟨rfl, rfl⟩, rfl, rfl⟩

/-- The volume of a floppy disk. -/
theorem floppy_addressable : Addressable floppy.vol := by
  constructor <;> decide

/-- A file is removed while it is open, and another one is created at its position. -/
theorem descriptors_are_those_of_the_files_floppy : ∃ past state,
    Trace (OpenFiles.Initial floppy.vol) (Careful floppy.vol) (OpenFiles.step floppy.vol) past state ∧
      ((state.files.fds 0).map Fd.removed, (state.files.fds 1).map Fd.removed, state.pooled 1) =
        (some true, some false, true) ∧
      ∀ el el' fd fd', state.files.fds el = some fd → state.files.fds el' = some fd' →
        fd.ino = fd'.ino → el = el' := by
  obtain ⟨past, state, run, seen⟩ := @Trace.observe _ _ (OpenFiles.Initial floppy.vol) _
    (Careful floppy.vol) (OpenFiles.step floppy.vol) unopened
    ⟨(fatInitVolumeInfo_mounted floppy_accepted).toSized, floppy_addressable, unopened_unused⟩
    [.openAt ⟨0, 32⟩ true fun _ => false, .markRemoved 0, .openAt ⟨0, 32⟩ true fun _ => false]
    (fun state =>
      ((state.files.fds 0).map Fd.removed, (state.files.fds 1).map Fd.removed, state.pooled 1))
    (some true, some false, true) (by decide +kernel) (by decide +kernel)
  exact ⟨past, state, run, seen, (descriptors_are_those_of_the_files run).2.2.1⟩

/-- The boot record and the information sector of a FAT32 volume of 268566528 sectors with clusters of 64
sectors. -/
def largeDisk : Content
  | 12 => 2
  | 13 => 64
  | 14 => 32
  | 16 => 1
  | 34 => 2
  | 35 => 16
  | 37 => 0x81
  | 44 => 2
  | 48 => 1
  | 512 => 0x52
  | 513 => 0x52
  | 514 => 0x61
  | 515 => 0x41
  | _ => 0

/-- Its device. -/
def largeDevice : Device where
  mediaBlockSize := 512
  size := 0x10020000
  fits := by decide
  bdsPerGroup := fun _ => 1
  blockCount := 0x10020000

/-- The file system behind the mount. -/
def large : FsInfo where
  vol := volumeOf largeDisk .fat32
  freeCls := 0
  nextCl := 0
  c := { blkNum := 0, modified := false, actual := false, buf := fun _ => 0 }
  device := largeDevice
  disk := largeDisk
  unread := fun _ _ => 0

theorem large_accepted : fatInitVolumeInfo largeDisk (fun _ _ => 0) largeDevice = .ok large := rfl

/-- Two entries whose sectors are 2 ^ 28 sectors of 512 bytes apart have one key, and so one descriptor. -/
theorem large_volume_shares_descriptors :
    ¬ ∀ (disk : Content) (unread : Nat → Content) (device : Device) (fs : FsInfo),
      fatInitVolumeInfo disk unread device = .ok fs →
      ∀ pos pos' memory memory' unknown unknown' el el' files files', pos.There fs.vol →
        pos'.There fs.vol →
        unopened.files.fileOpen fs.vol memory unknown pos = some (.ok el, files) →
        files.fileOpen fs.vol memory' unknown' pos' = some (.ok el', files') →
        (el = el' ↔ pos = pos') := by
  intro claim
  have opened := claim _ _ _ large large_accepted ⟨2, 0⟩ ⟨4194306, 0⟩ true true (fun _ => false)
    (fun _ => false) 0 0 _ _ (by decide) (by decide) rfl rfl
  exact absurd (opened.mp rfl) (by decide)

end Rtems.Dosfs
