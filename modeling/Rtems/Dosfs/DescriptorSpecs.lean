import Rtems.Dosfs.Descriptors

/-!
# The tables of the descriptors

A descriptor is in the table and the chain that its state and its key say, two valid descriptors have two
positions, and two descriptors have two inode numbers. A call takes a descriptor out of the tables or puts one
into them.
-/

namespace Rtems.Dosfs

open Function (update update_of_ne update_self)

variable {vol : Volume}

/-! ## The pool -/

variable {pool : Pool} {ino : Nat}

variable {unknown : Nat → Bool}

namespace Pool

/-- The size is a power of two, and the index is a bit of the bytes. -/
structure Fit (pool : Pool) : Prop where
  size : ∃ k, k < 32 ∧ pool.size = 2 ^ k
  index : pool.index ≤ pool.size

/-- A scan finds a free bit at the index and makes it busy, or changes the index only. -/
theorem scan_spec (fuel : Nat) (pool : Pool) : (scan fuel pool).2.size = pool.size ∧
      (pool.index ≤ pool.size → (scan fuel pool).2.index ≤ pool.size) ∧ if (scan fuel pool).1 then
        pool.busy (scan fuel pool).2.index = false ∧
          (scan fuel pool).2.busy = update pool.busy (scan fuel pool).2.index true
      else (scan fuel pool).2.busy = pool.busy := by
  induction fuel generalizing pool with
  | zero => exact ⟨rfl, id, rfl⟩
  | succ fuel ih =>
    rw [scan]
    split
    case isTrue free => exact ⟨rfl, id, free, rfl⟩
    case isFalse =>
      obtain ⟨size, index, busy⟩ := ih
        { pool with index := if pool.size ≤ pool.index + 1 then 0 else pool.index + 1 }
      refine ⟨size, fun _ => index ?_, busy⟩
      dsimp only
      split <;> omega

/-- What a number of the pool is: the one of a bit that was free. -/
structure Given (base : Nat) (before after : Pool) (ino : Nat) : Prop where
  fit : after.Fit
  bigger : before.size ≤ after.size
  kept : ∀ bit, bit < before.size * 8 → before.busy bit = true → after.busy bit = true
  number : ino ≠ 0 → ino = (base + after.index) % 2 ^ 32 ∧ after.busy after.index = true ∧
    (after.index < before.size * 8 → before.busy after.index = false)

/-- A pool without bytes does not give a number. -/
theorem getUniqueIno_empty {base : Nat} (unknown : Nat → Bool) (grows : 0 < minus 0x0fffffff base)
    (fuel : Nat) (pool : Pool) (empty : pool.size = 0) :
    getUniqueIno base unknown fuel pool = none := by
  induction fuel generalizing pool with
  | zero => rfl
  | succ fuel ih =>
    have scanned : scan pool.size pool = (false, pool) := by rw [empty, scan]
    have bigger : pool.size * 2 % 2 ^ 32 < minus 0x0fffffff base := by rwa [empty]
    simp only [getUniqueIno, scanned, if_pos bigger]
    exact ih _ (by simp [grow, empty])

theorem getUniqueIno_spec {base : Nat} (fuel : Nat) {after : Pool} (fit : pool.Fit)
    (given : getUniqueIno base unknown fuel pool = some (ino, after)) :
    Given base pool after ino := by
  induction fuel generalizing pool with
  | zero => cases given
  | succ fuel ih =>
    obtain ⟨size, index, busy⟩ := scan_spec pool.size pool
    rw [getUniqueIno] at given
    generalize scan pool.size pool = scanned at size index busy given
    obtain ⟨found, next⟩ := scanned
    cases found with
    | true =>
      obtain ⟨free, marked⟩ := busy
      obtain ⟨rfl, rfl⟩ := Prod.mk.inj (Option.some.inj given)
      constructor
      case fit => exact ⟨size ▸ fit.size, size ▸ index fit.index⟩
      case bigger => exact size.ge
      case kept =>
        intro bit _ used
        by_cases same : bit = next.index
        · rw [marked, same, update_self]
        · rw [marked, update_of_ne same, used]
      case number =>
        intro _
        exact ⟨rfl, by rw [marked, update_self], fun _ => free⟩
    | false =>
      replace busy : next.busy = pool.busy := busy
      dsimp only at size index given
      split at given
      case isFalse =>
        cases given
        constructor
        case fit => exact ⟨size ▸ fit.size, size ▸ index fit.index⟩
        case bigger => exact size.ge
        case kept => exact fun bit _ used => busy ▸ used
        case number => exact fun nonzero => absurd rfl nonzero
      case isTrue grows =>
        obtain ⟨k, most, power⟩ := fit.size
        by_cases last : k = 31
        · have empty : (next.grow unknown).size = 0 := by simp [grow, size, power, last]
          rw [getUniqueIno_empty unknown (Nat.zero_lt_of_lt grows) fuel _ empty] at given
          cases given
        · have double : (next.grow unknown).size = 2 ^ (k + 1) := by
            have word : 2 ^ (k + 1) < 2 ^ 32 := Nat.pow_lt_pow_right (by decide) (by omega)
            rw [grow, size, power, ← Nat.pow_succ, Nat.mod_eq_of_lt word]
          have larger : pool.size ≤ (next.grow unknown).size := by
            rw [double, power]
            exact Nat.pow_le_pow_right (by decide) (by omega)
          have same : ∀ bit, bit < pool.size * 8 → (next.grow unknown).busy bit = pool.busy bit := by
            intro bit inside
            rw [← busy, ← size] at *
            exact if_pos inside
          have later := ih ⟨⟨k + 1, by omega, double⟩, le_refl _⟩ given
          constructor
          case fit => exact later.fit
          case bigger => exact larger.trans later.bigger
          case kept =>
            intro bit inside used
            exact later.kept bit (by omega) ((same bit inside).trans used)
          case number =>
            intro nonzero
            obtain ⟨num, marked, free⟩ := later.number nonzero
            exact ⟨num, marked, fun inside => (same _ inside).symm.trans (free (by omega))⟩

end Pool

/-! ## The tables -/

/-- What is kept by the calls. -/
structure OpenFiles.Sound (vol : Volume) (state : OpenFiles) : Prop where
  fresh : ∀ el, state.files.fresh ≤ el → state.files.fds el = none
  valid : ∀ chain el, el ∈ state.files.vhash chain ↔ ∃ fd, state.files.fds el = some fd ∧
    fd.removed = false ∧ constructKey vol fd.pos % 2 = chain
  validOnce : ∀ chain, (state.files.vhash chain).Nodup
  removed : ∀ chain el, el ∈ state.files.rhash chain ↔ ∃ fd, state.files.fds el = some fd ∧
    fd.removed = true ∧ constructKey vol fd.pos % 2 = chain
  removedOnce : ∀ chain, (state.files.rhash chain).Nodup
  there : ∀ el fd, state.files.fds el = some fd → fd.pos.There vol
  places : ∀ el other fd fd', state.files.fds el = some fd → state.files.fds other = some fd' →
    fd.removed = false → fd'.removed = false → fd.pos = fd'.pos → el = other
  links : ∀ el fd, state.files.fds el = some fd → fd.linksNum = state.opens el
  closed : ∀ el, state.files.fds el = none → state.opens el = 0
  inos : ∀ el other fd fd', state.files.fds el = some fd → state.files.fds other = some fd' →
    fd.ino = fd'.ino → el = other
  key : ∀ el fd, state.files.fds el = some fd → state.pooled el = false →
    fd.ino = constructKey vol fd.pos
  number : ∀ el fd, state.files.fds el = some fd → state.pooled el = true → ∃ bit,
    fd.ino = uinoBase vol + bit ∧ fd.ino < 2 ^ 32 ∧ state.files.pool.busy bit = true ∧
      bit < state.files.pool.size * 8
  fit : state.files.pool.Fit

variable {st : OpenFiles}

variable {hash : Hash} {el : Nat}

/-- A descriptor that a search finds. -/
theorem FileTables.search_some {files : FileTables} {key1 key2 : Nat}
    (found : files.search vol hash key1 key2 = some el) :
    el ∈ hash (key1 % 2) ∧ ∃ fd, files.fds el = some fd ∧ constructKey vol fd.pos = key1 ∧
      (key2 = 0 ∨ key2 = fd.ino) := by
  have accepted := List.find?_some found
  refine ⟨List.mem_of_find?_eq_some found, ?_⟩
  split at accepted
  case h_1 fd present =>
    obtain ⟨same, second⟩ := of_decide_eq_true accepted
    exact ⟨fd, present, same.symm, second⟩
  case h_2 => cases accepted

variable {fd : Fd}

/-- No descriptor of the table matches. -/
theorem FileTables.search_none {files : FileTables} {key1 key2 : Nat}
    (missed : files.search vol hash key1 key2 = none)
    (present : files.fds el = some fd) (member : el ∈ hash (key1 % 2))
    (same : constructKey vol fd.pos = key1) : ¬ (key2 = 0 ∨ key2 = fd.ino) := by
  intro second
  have refused := List.find?_eq_none.mp missed el member
  simp [present, same, second] at refused

namespace OpenFiles.Sound

variable {pos : Pos}

/-- A search for a valid file finds its descriptor. -/
theorem search_valid (sound : st.Sound vol) (addressable : Addressable vol) (sized : vol.Sized)
    (there : pos.There vol)
    (found : st.files.search vol st.files.vhash (constructKey vol pos) 0 = some el) :
    ∃ fd, st.files.fds el = some fd ∧ fd.removed = false ∧ fd.pos = pos := by
  obtain ⟨member, fd, present, same, _⟩ := FileTables.search_some found
  obtain ⟨_, present', valid, _⟩ := (sound.valid _ el).mp member
  cases present.symm.trans present'
  exact ⟨_, present, valid, addressable.key_injective sized (sound.there el _ present) there same⟩

/-- Where the search misses there is no valid file at the position. -/
theorem search_missed (sound : st.Sound vol)
    (missed : st.files.search vol st.files.vhash (constructKey vol pos) 0 = none)
    (present : st.files.fds el = some fd) (valid : fd.removed = false) : fd.pos ≠ pos := by
  intro same
  have member := (sound.valid (constructKey vol pos % 2) el).mpr ⟨fd, present, valid, by rw [same]⟩
  exact FileTables.search_none missed present member (by rw [same]) (.inl rfl)

/-- A change of the count of the links. -/
theorem relink (sound : st.Sound vol) {count : Nat} (present : st.files.fds el = some fd) :
    Sound vol { st with
      files := st.files.set el (some { fd with linksNum := count })
      opens := update st.opens el count } := by
  -- the other fields of every descriptor are as before
  have fields : ∀ other fd',
      (st.files.set el (some { fd with linksNum := count })).fds other = some fd' →
      ∃ before, st.files.fds other = some before ∧ before.removed = fd'.removed ∧
        before.pos = fd'.pos ∧ before.ino = fd'.ino := by
    intro other fd' found
    by_cases same : other = el
    · subst same
      simp only [FileTables.set, update_self, Option.some.injEq] at found
      subst found
      exact ⟨fd, present, rfl, rfl, rfl⟩
    · simp only [FileTables.set, update_of_ne same] at found
      exact ⟨fd', found, rfl, rfl, rfl⟩
  constructor
  case fresh =>
    intro other bound
    have ne : other ≠ el := by
      rintro rfl
      rw [sound.fresh other bound] at present
      cases present
    exact (update_of_ne ne ..).trans (sound.fresh other bound)
  case valid =>
    intro chain other
    by_cases same : other = el
    · subst same
      simpa [FileTables.set, present] using sound.valid chain other
    · simpa [FileTables.set, same] using sound.valid chain other
  case validOnce => exact sound.validOnce
  case removed =>
    intro chain other
    by_cases same : other = el
    · subst same
      simpa [FileTables.set, present] using sound.removed chain other
    · simpa [FileTables.set, same] using sound.removed chain other
  case removedOnce => exact sound.removedOnce
  case there =>
    intro other fd' found
    obtain ⟨before, found', _, pos, _⟩ := fields other fd' found
    exact pos ▸ sound.there other before found'
  case places =>
    intro one other fd' fd'' found found' valid valid' same
    obtain ⟨before, had, removed, pos, _⟩ := fields one fd' found
    obtain ⟨before', had', removed', pos', _⟩ := fields other fd'' found'
    exact sound.places one other before before' had had' (removed.trans valid)
      (removed'.trans valid') (by rw [pos, pos', same])
  case links =>
    intro other fd' found
    by_cases same : other = el
    · subst same
      simp only [FileTables.set, update_self, Option.some.injEq] at found
      subst found
      simp
    · simp only [FileTables.set, update_of_ne same] at found
      simpa [same] using sound.links other fd' found
  case closed =>
    intro other gone
    have ne : other ≠ el := by
      rintro rfl
      simp [FileTables.set] at gone
    simp only [FileTables.set, update_of_ne ne] at gone
    simpa [ne] using sound.closed other gone
  case inos =>
    intro one other fd' fd'' found found' same
    obtain ⟨before, had, _, _, ino⟩ := fields one fd' found
    obtain ⟨before', had', _, _, ino'⟩ := fields other fd'' found'
    exact sound.inos one other before before' had had' (by rw [ino, ino', same])
  case key =>
    intro other fd' found pooled
    obtain ⟨before, had, _, pos, ino⟩ := fields other fd' found
    rw [← ino, ← pos]
    exact sound.key other before had pooled
  case number =>
    intro other fd' found pooled
    obtain ⟨before, had, _, _, ino⟩ := fields other fd' found
    rw [← ino]
    exact sound.number other before had pooled
  case fit => exact sound.fit

/-- The bits of the descriptors other than one stay busy. -/
def Spared (vol : Volume) (state : OpenFiles) (el : Nat) (pool : Pool) : Prop :=
  pool.Fit ∧ ∀ other fd bit, other ≠ el → state.files.fds other = some fd →
    state.pooled other = true → fd.ino = uinoBase vol + bit → state.files.pool.busy bit = true →
    bit < state.files.pool.size * 8 → pool.busy bit = true ∧ bit < pool.size * 8

/-- A descriptor is taken out of the tables and freed. -/
theorem drop (sound : st.Sound vol) (el : Nat) (spared : Spared vol st el pool) :
    Sound vol { st with
      files := { st.files.set el none with
        vhash := st.files.vhash.delete el
        rhash := st.files.rhash.delete el
        pool := pool }
      opens := update st.opens el 0 } := by
  have fields : ∀ other fd, (st.files.set el none).fds other = some fd →
      other ≠ el ∧ st.files.fds other = some fd := by
    intro other fd found
    by_cases same : other = el
    · simp [FileTables.set, same] at found
    · simp only [FileTables.set, update_of_ne same] at found
      exact ⟨same, found⟩
  constructor
  case fresh =>
    intro other bound
    by_cases same : other = el
    · simp [FileTables.set, same]
    · simpa [FileTables.set, same] using sound.fresh other bound
  case valid =>
    intro chain other
    by_cases same : other = el
    · subst same
      simp [FileTables.set, Hash.delete, (sound.validOnce chain).not_mem_erase]
    · simpa [FileTables.set, same, Hash.delete] using sound.valid chain other
  case validOnce => exact fun chain => (sound.validOnce chain).erase el
  case removed =>
    intro chain other
    by_cases same : other = el
    · subst same
      simp [FileTables.set, Hash.delete, (sound.removedOnce chain).not_mem_erase]
    · simpa [FileTables.set, same, Hash.delete] using sound.removed chain other
  case removedOnce => exact fun chain => (sound.removedOnce chain).erase el
  case there => exact fun other fd found => sound.there other fd (fields other fd found).2
  case places =>
    intro one other fd fd' found found'
    exact sound.places one other fd fd' (fields one fd found).2 (fields other fd' found').2
  case links =>
    intro other fd found
    obtain ⟨ne, had⟩ := fields other fd found
    simpa [ne] using sound.links other fd had
  case closed =>
    intro other gone
    by_cases same : other = el
    · simp [same]
    · simp only [FileTables.set, update_of_ne same] at gone
      simpa [same] using sound.closed other gone
  case inos =>
    intro one other fd fd' found found'
    exact sound.inos one other fd fd' (fields one fd found).2 (fields other fd' found').2
  case key => exact fun other fd found => sound.key other fd (fields other fd found).2
  case number =>
    intro other fd found pooled
    obtain ⟨ne, had⟩ := fields other fd found
    obtain ⟨bit, ino, word, busy, inside⟩ := sound.number other fd had pooled
    obtain ⟨busy', inside'⟩ := spared.2 other fd bit ne had pooled ino busy inside
    exact ⟨bit, ino, word, busy', inside'⟩
  case fit => exact spared.1

/-- What is asked of a descriptor that is put into the tables. -/
structure Fresh (vol : Volume) (state : OpenFiles) (el : Nat) (fd : Fd) (pooled : Bool) (pool : Pool) :
    Prop where
  there : fd.pos.There vol
  place : fd.removed = false → ∀ other fd', other ≠ el → state.files.fds other = some fd' →
    fd'.removed = false → fd'.pos ≠ fd.pos
  ino : ∀ other fd', other ≠ el → state.files.fds other = some fd' → fd'.ino ≠ fd.ino
  key : pooled = false → fd.ino = constructKey vol fd.pos
  number : pooled = true → ∃ bit, fd.ino = uinoBase vol + bit ∧ fd.ino < 2 ^ 32 ∧
    pool.busy bit = true ∧ bit < pool.size * 8

/-- The table and the chain of a descriptor that is put into them. -/
def enter (vol : Volume) (removed : Bool) (hash : Hash) (el : Nat) (fd : Fd) : Hash :=
  if fd.removed = removed then hash.insert (constructKey vol fd.pos) el else hash

theorem mem_enter {removed : Bool} {chain other : Nat} :
    other ∈ enter vol removed hash el fd chain ↔ other ∈ hash chain ∨
      other = el ∧ fd.removed = removed ∧ constructKey vol fd.pos % 2 = chain := by
  unfold enter Hash.insert
  split
  case isTrue table =>
    by_cases same : chain = constructKey vol fd.pos % 2
    · subst same
      simp [table]
    · simp [update_of_ne same, Ne.symm same]
  case isFalse table => simp [table]

theorem nodup_enter {removed : Bool} (chain : Nat) (once : (hash chain).Nodup)
    (absent : el ∉ hash chain) : (enter vol removed hash el fd chain).Nodup := by
  unfold enter Hash.insert
  split
  case isTrue table =>
    by_cases same : chain = constructKey vol fd.pos % 2
    · subst same
      rw [update_self]
      exact (List.perm_append_singleton _ _).nodup_iff.mpr (List.nodup_cons.mpr ⟨absent, once⟩)
    · rwa [update_of_ne same]
  case isFalse table => exact once

/-- A descriptor is put into the tables. -/
theorem place (sound : st.Sound vol) {fresh : Nat} {pooled : Bool}
    (absent : st.files.fds el = none) (bound : el < fresh) (bigger : st.files.fresh ≤ fresh)
    (spared : Spared vol st el pool) (new : Fresh vol st el fd pooled pool) :
    Sound vol {
      files := { st.files.set el (some fd) with
        fresh := fresh
        vhash := enter vol false st.files.vhash el fd
        rhash := enter vol true st.files.rhash el fd
        pool := pool }
      opens := update st.opens el fd.linksNum
      pooled := update st.pooled el pooled } := by
  have notValid : ∀ chain, el ∉ st.files.vhash chain := by
    intro chain member
    obtain ⟨_, present, _⟩ := (sound.valid chain el).mp member
    rw [absent] at present
    cases present
  have notRemoved : ∀ chain, el ∉ st.files.rhash chain := by
    intro chain member
    obtain ⟨_, present, _⟩ := (sound.removed chain el).mp member
    rw [absent] at present
    cases present
  have self : (st.files.set el (some fd)).fds el = some fd := update_self ..
  have untouched : ∀ other, other ≠ el →
      (st.files.set el (some fd)).fds other = st.files.fds other :=
    fun other ne => update_of_ne ne ..
  constructor
  case fresh =>
    intro other (above : fresh ≤ other)
    exact (untouched other (by omega)).trans (sound.fresh other (by omega))
  case valid =>
    intro chain other
    rw [mem_enter]
    by_cases same : other = el
    · subst same
      simp [self, notValid]
    · simp [untouched other same, same, sound.valid chain other]
  case validOnce => exact fun chain => nodup_enter chain (sound.validOnce chain) (notValid chain)
  case removed =>
    intro chain other
    rw [mem_enter]
    by_cases same : other = el
    · subst same
      simp [self, notRemoved]
    · simp [untouched other same, same, sound.removed chain other]
  case removedOnce =>
    exact fun chain => nodup_enter chain (sound.removedOnce chain) (notRemoved chain)
  case there =>
    intro other fd' found
    by_cases same : other = el
    · subst same
      cases self.symm.trans found
      exact new.there
    · exact sound.there other fd' ((untouched other same).symm.trans found)
  case places =>
    intro one other fd' fd'' found found' valid valid' pos
    by_cases same : one = el
    · by_cases same' : other = el
      · rw [same, same']
      · subst same
        cases self.symm.trans found
        exact absurd pos.symm (new.place valid other fd'' same'
          ((untouched other same').symm.trans found') valid')
    · by_cases same' : other = el
      · subst same'
        cases self.symm.trans found'
        exact absurd pos (new.place valid' one fd' same
          ((untouched one same).symm.trans found) valid)
      · exact sound.places one other fd' fd'' ((untouched one same).symm.trans found)
          ((untouched other same').symm.trans found') valid valid' pos
  case links =>
    intro other fd' found
    by_cases same : other = el
    · subst same
      cases self.symm.trans found
      simp
    · simpa [same] using sound.links other fd' ((untouched other same).symm.trans found)
  case closed =>
    intro other gone
    have ne : other ≠ el := by
      rintro rfl
      cases self.symm.trans gone
    simpa [ne] using sound.closed other ((untouched other ne).symm.trans gone)
  case inos =>
    intro one other fd' fd'' found found' ino
    by_cases same : one = el
    · by_cases same' : other = el
      · rw [same, same']
      · subst same
        cases self.symm.trans found
        exact absurd ino.symm (new.ino other fd'' same' ((untouched other same').symm.trans found'))
    · by_cases same' : other = el
      · subst same'
        cases self.symm.trans found'
        exact absurd ino (new.ino one fd' same ((untouched one same).symm.trans found))
      · exact sound.inos one other fd' fd'' ((untouched one same).symm.trans found)
          ((untouched other same').symm.trans found') ino
  case key =>
    intro other fd' found unpooled
    by_cases same : other = el
    · subst same
      cases self.symm.trans found
      exact new.key (by simpa using unpooled)
    · exact sound.key other fd' ((untouched other same).symm.trans found)
        (by simpa [same] using unpooled)
  case number =>
    intro other fd' found given
    by_cases same : other = el
    · subst same
      cases self.symm.trans found
      exact new.number (by simpa using given)
    · have had := (untouched other same).symm.trans found
      have given' : st.pooled other = true := by simpa [same] using given
      obtain ⟨bit, ino, word, busy, inside⟩ := sound.number other fd' had given'
      obtain ⟨busy', inside'⟩ := spared.2 other fd' bit same had given' ino busy inside
      exact ⟨bit, ino, word, busy', inside'⟩
  case fit => exact spared.1

/-- The pool alone changes. -/
theorem repool (sound : st.Sound vol) (spared : Spared vol st st.files.fresh pool) :
    Sound vol { st with files := { st.files with pool := pool } } := by
  refine { sound with number := ?_, fit := spared.1 }
  intro el fd found pooled
  have ne : el ≠ st.files.fresh := by
    rintro rfl
    rw [sound.fresh _ (le_refl _)] at found
    cases found
  obtain ⟨bit, ino, word, busy, inside⟩ := sound.number el fd found pooled
  obtain ⟨busy', inside'⟩ := spared.2 el fd bit ne found pooled ino busy inside
  exact ⟨bit, ino, word, busy', inside'⟩

/-- A number of the pool does not make a bit free. -/
theorem Spared.of_given (el : Nat) (given : Pool.Given (uinoBase vol) st.files.pool pool ino) :
    Spared vol st el pool := by
  refine ⟨given.fit, fun _ _ bit _ _ _ _ busy inside => ⟨given.kept bit inside busy, ?_⟩⟩
  have bigger := given.bigger
  omega

/-- The number for a position without a valid file is fresh. -/
theorem newIno_fresh (sound : st.Sound vol) (addressable : Addressable vol) (sized : vol.Sized)
    (there : pos.There vol)
    (apart : ∀ other fd, other ≠ el → st.files.fds other = some fd → fd.removed = false → fd.pos ≠ pos)
    (given : st.files.newIno vol unknown (constructKey vol pos) = some (ino, pool))
    (granted : st.files.fromPool vol (constructKey vol pos) = true → ino ≠ 0 ∧ uinoBase vol + pool.index < 2 ^ 32)
    :
    Spared vol st el pool ∧ ∀ links,
      Fresh vol st el ⟨links, ino, false, pos⟩ (st.files.fromPool vol (constructKey vol pos))
        pool := by
  obtain ⟨positive, below⟩ := addressable.key_lt sized there
  cases source : st.files.fromPool vol (constructKey vol pos) with
  | false =>
    simp only [FileTables.newIno, source] at given
    obtain ⟨rfl, rfl⟩ := given
    refine ⟨⟨sound.fit, fun _ _ _ _ _ _ _ busy inside => ⟨busy, inside⟩⟩, fun links => ?_⟩
    constructor
    case there => exact there
    case place => exact fun _ => apart
    case ino =>
      intro other fd ne found same
      cases pooled : st.pooled other with
      | true =>
        obtain ⟨bit, num, _⟩ := sound.number other fd found pooled
        dsimp only at same
        omega
      | false =>
        have own := sound.key other fd found pooled
        have pos' := addressable.key_injective sized (sound.there other fd found) there
          (own.symm.trans same)
        cases removed : fd.removed with
        | false => exact apart other fd ne found removed pos'
        | true =>
          have member := (sound.removed (constructKey vol pos % 2) other).mpr
            ⟨fd, found, removed, by rw [pos']⟩
          have missed : st.files.search vol st.files.rhash (constructKey vol pos)
              (constructKey vol pos) = none := by
            simpa [FileTables.fromPool] using source
          exact FileTables.search_none missed found member (by rw [pos']) (.inr same.symm)
    case key => exact fun _ => rfl
    case number => simp
  | true =>
    obtain ⟨nonzero, word⟩ := granted source
    rw [FileTables.newIno, if_pos source] at given
    have law := Pool.getUniqueIno_spec 33 sound.fit given
    obtain ⟨num, marked, free⟩ := law.number nonzero
    rw [Nat.mod_eq_of_lt word] at num
    refine ⟨Spared.of_given el law, fun links => ?_⟩
    constructor
    case there => exact there
    case place => exact fun _ => apart
    case ino =>
      intro other fd ne found same
      dsimp only at same
      cases pooled : st.pooled other with
      | true =>
        obtain ⟨bit, number', _, busy, inside⟩ := sound.number other fd found pooled
        obtain rfl : bit = pool.index := by omega
        rw [free inside] at busy
        cases busy
      | false =>
        have own := sound.key other fd found pooled
        obtain ⟨_, below'⟩ := addressable.key_lt sized (sound.there other fd found)
        omega
    case key => simp
    case number =>
      intro _
      refine ⟨pool.index, num, by dsimp only; omega, marked, ?_⟩
      obtain ⟨k, _, power⟩ := law.fit.size
      have inside := law.fit.index
      have positive := Nat.two_pow_pos k
      omega

end OpenFiles.Sound

end Rtems.Dosfs
