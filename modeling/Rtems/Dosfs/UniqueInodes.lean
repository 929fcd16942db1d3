import Rtems.Dosfs.Descriptors

/-!
# The pool of the unique inode numbers

A bit for each number tells whether it is handed out. The array of the bits begins with 256 cleared
bytes; the bytes that it gains when it grows have no contents, and without memory there is no array.
-/

namespace Rtems.Dosfs

open Function (update update_of_ne update_self)

/-- The pool and the bytes of its array that have contents. -/
structure InoPool extends Pool where
  initialised : Nat

namespace InoPool

/-- A bit below the size of the array, in a byte with contents. -/
def Reads (pool : InoPool) (bit : Nat) : Prop := bit < pool.size * 8 ∧ bit / 8 < pool.initialised
deriving Decidable

/-- The index behind another one. -/
def next (size index : Nat) : Nat := if size ≤ index + 1 then 0 else index + 1

/-- The loop of `fat_get_unique_ino` over the bits, without a value if it reads another bit. -/
def scan : Nat → InoPool → Option (Bool × InoPool)
  | 0, pool => some (false, pool)
  | rest + 1, pool =>
    if ¬ pool.Reads pool.index then none
    else if pool.busy pool.index = false then
      some (true, { pool with busy := update pool.busy pool.index true })
    else scan rest { pool with index := next pool.size pool.index }

/-- `fat_get_unique_ino`, with the sizes that there is memory for. -/
def getUniqueIno (base : Nat) (memory : Nat → Bool) : Nat → InoPool → Option (Nat × InoPool)
  | 0, _ => none
  | fuel + 1, pool =>
    match scan pool.size pool with
    | none => none
    | some (true, pool) => some ((base + pool.index) % 2 ^ 32, pool)
    | some (false, pool) =>
      let size := pool.size * 2 % 2 ^ 32
      if size < minus 0x0fffffff base then
        if memory size then getUniqueIno base memory fuel { pool with size := size, index := size }
        else some (0, { pool with size := size, initialised := 0 })
      else some (0, pool)

/-- `fat_free_unique_ino` -/
def freeUniqueIno (base ino : Nat) (pool : InoPool) : Option InoPool :=
  let bit := minus ino base
  if pool.Reads bit then some { pool with busy := update pool.busy bit false } else none

/-- The place that a round of the loop looks at. -/
def place (pool : InoPool) (round : Nat) : Nat := (next pool.size)^[round] pool.index

/-- All places that the loop looks at are handed out. -/
def Exhausted (pool : InoPool) : Prop := ∀ round < pool.size, pool.busy (pool.place round) = true

end InoPool

/-- The pool and the numbers that are handed out. -/
structure Inos where
  pool : InoPool
  handed : List Nat

namespace Inos

/-- The pool after mounting, with `FAT_UINO_POOL_INIT_SIZE` cleared bytes. -/
def initial : Inos :=
  { pool := { size := 0x100, index := 0, busy := fun _ => false, initialised := 0x100 }, handed := [] }

inductive Call where
  | get (memory : Nat → Bool)
  | free (ino : Nat)

def step (base : Nat) (state : Inos) : Call → Option Inos
  | .get memory => (state.pool.getUniqueIno base memory 33).map fun (ino, pool) =>
      ⟨pool, if ino = 0 then state.handed else ino :: state.handed⟩
  | .free ino => (state.pool.freeUniqueIno base ino).map fun pool => ⟨pool, state.handed.erase ino⟩

def run (base : Nat) : Inos → List Call → Option Inos
  | state, [] => some state
  | state, call :: calls => (step base state call).bind fun state => run base state calls

/-- The condition of a call: the pool does not have to grow without memory or to 2048 bytes, and what
is freed is handed out. -/
def Meets (base : Nat) (state : Inos) : Call → Prop
  | .get memory => state.pool.Exhausted → state.pool.size * 2 % 2 ^ 32 < minus 0x0fffffff base →
      state.pool.size * 2 < 2048 ∧ memory (state.pool.size * 2) = true
  | .free ino => ino ∈ state.handed

/-- A call reads bits with contents only. A number is handed out that is not handed out yet, one that
is free if the loop looks at such a one. -/
def Right (base : Nat) (state : Inos) : Call → Prop
  | .get memory => ∃ ino after, state.pool.getUniqueIno base memory 33 = some (ino, after) ∧
      (ino ≠ 0 → ino ∉ state.handed) ∧ (¬ state.pool.Exhausted → ∃ round < state.pool.size,
        state.pool.busy (state.pool.place round) = false ∧
          ino = (base + state.pool.place round) % 2 ^ 32)
  | .free ino => ∃ after, state.pool.freeUniqueIno base ino = some after ∧
      after.busy (minus ino base) = false

def AllMeet (base : Nat) : Inos → List Call → Prop
  | _, [] => True
  | state, call :: calls =>
    Meets base state call ∧ ∀ next, step base state call = some next → AllMeet base next calls

def AllRight (base : Nat) : Inos → List Call → Prop
  | _, [] => True
  | state, call :: calls =>
    Right base state call ∧ ∃ next, step base state call = some next ∧ AllRight base next calls

end Inos

/-- A pool that did not grow to 2048 bytes. -/
structure InoPool.Small (pool : InoPool) : Prop where
  size : pool.size = 256 ∨ pool.size = 512 ∨ pool.size = 1024
  index : pool.index ≤ pool.size
  initialised : pool.initialised = 256

/-- The numbers that are handed out have their bits set, and no bit behind the size is set. -/
structure Inos.Sound (base : Nat) (state : Inos) : Prop extends InoPool.Small state.pool where
  clear : ∀ bit, state.pool.size < bit → state.pool.busy bit = false
  handed : ∀ ino ∈ state.handed, ∃ bit ≤ state.pool.size,
    state.pool.busy bit = true ∧ ino = (base + bit) % 2 ^ 32
  nodup : state.handed.Nodup

namespace InoPool

variable {pool : InoPool}

theorem Small.reads (small : pool.Small) {bit : Nat} (inside : bit ≤ pool.size) : pool.Reads bit := by
  have size := small.size
  have initialised := small.initialised
  rw [Reads]
  omega

theorem next_le (size index : Nat) : next size index ≤ size := by
  rw [next]
  split <;> omega

theorem place_le (inside : pool.index ≤ pool.size) (round : Nat) : pool.place round ≤ pool.size := by
  cases round with
  | zero => exact inside
  | succ round =>
    rw [place, Function.iterate_succ_apply']
    exact next_le _ _

/-- The loop finds the first free bit or looks at busy ones only. -/
theorem scan_spec (small : pool.Small) (count : Nat) :
    (∀ round < count, pool.busy (pool.place round) = true) ∧
      scan count pool = some (false, { pool with index := pool.place count }) ∨
    ∃ round < count, pool.busy (pool.place round) = false ∧ scan count pool = some (true,
      { pool with index := pool.place round, busy := update pool.busy (pool.place round) true }) := by
  induction count generalizing pool with
  | zero => exact Or.inl ⟨nofun, rfl⟩
  | succ count ih =>
    rw [scan, if_neg (not_not.mpr (small.reads small.index))]
    cases here : pool.busy pool.index with
    | false =>
      rw [if_pos rfl]
      exact Or.inr ⟨0, Nat.succ_pos _, here, rfl⟩
    | true =>
      rw [if_neg Bool.noConfusion]
      obtain ⟨full, scanned⟩ | ⟨round, less, free, scanned⟩ :=
        @ih { pool with index := next pool.size pool.index }
          { small with index := next_le _ _ }
      · refine Or.inl ⟨?_, scanned⟩
        intro round less
        cases round with
        | zero => exact here
        | succ round => exact full round (Nat.lt_of_succ_lt_succ less)
      · exact Or.inr ⟨round + 1, Nat.succ_lt_succ less, free, scanned⟩

end InoPool

namespace Inos

variable {base : Nat} {state : Inos}

theorem initial_sound : Sound base initial where
  size := Or.inl rfl
  index := Nat.zero_le _
  initialised := rfl
  clear _ _ := rfl
  handed := nofun
  nodup := List.nodup_nil

/-- The number of a free bit is not handed out. -/
theorem Sound.fresh (sound : Sound base state) {bit : Nat} (inside : bit ≤ 2048)
    (free : state.pool.busy bit = false) : (base + bit) % 2 ^ 32 ∉ state.handed := by
  intro member
  obtain ⟨other, within, busy, same⟩ := sound.handed _ member
  have size := sound.size
  obtain rfl : bit = other := by omega
  rw [free] at busy
  cases busy

/-- A free bit is handed out by a pool that may have grown. -/
theorem Sound.hand (sound : Sound base state) {size bit : Nat}
    (sized : size = 256 ∨ size = 512 ∨ size = 1024) (grown : state.pool.size ≤ size)
    (inside : bit ≤ size) (free : state.pool.busy bit = false) :
    Sound base ⟨{ state.pool with
      size := size, index := bit, busy := update state.pool.busy bit true },
      if (base + bit) % 2 ^ 32 = 0 then state.handed else (base + bit) % 2 ^ 32 :: state.handed⟩ := by
  have old : ∀ ino ∈ state.handed, ∃ other ≤ size,
      update state.pool.busy bit true other = true ∧ ino = (base + other) % 2 ^ 32 := by
    intro ino member
    obtain ⟨other, within, busy, same⟩ := sound.handed ino member
    refine ⟨other, within.trans grown, ?_, same⟩
    rw [update_of_ne]
    · exact busy
    · rintro rfl
      rw [free] at busy
      cases busy
  refine ⟨⟨sized, inside, sound.initialised⟩, ?_, ?_, ?_⟩
  · intro other behind
    have distinct : other ≠ bit := by
      rintro rfl
      exact absurd behind (Nat.not_lt.mpr inside)
    exact (update_of_ne distinct ..).trans (sound.clear other (grown.trans_lt behind))
  · intro ino member
    dsimp only at member
    split at member
    · exact old ino member
    · obtain rfl | member := List.mem_cons.mp member
      · exact ⟨bit, inside, update_self .., rfl⟩
      · exact old ino member
  · dsimp only
    split
    · exact sound.nodup
    · exact List.nodup_cons.mpr ⟨sound.fresh (by omega) free, sound.nodup⟩

theorem Sound.get (sound : Sound base state) {memory : Nat → Bool}
    (meets : Meets base state (.get memory)) : Right base state (.get memory) ∧
      ∃ next, step base state (.get memory) = some next ∧ Sound base next := by
  have size := sound.size
  rw [Right, step, InoPool.getUniqueIno]
  obtain ⟨full, scanned⟩ | ⟨round, less, free, scanned⟩ :=
    InoPool.scan_spec sound.toSmall state.pool.size
  · rw [scanned]
    dsimp only
    split
    case isFalse =>
      refine ⟨⟨0, _, rfl, fun none => absurd rfl none, fun some => absurd full some⟩, _, rfl, ?_⟩
      exact { sound with index := InoPool.place_le sound.index _ }
    case isTrue limit =>
      obtain ⟨few, present⟩ := meets full limit
      have word : state.pool.size * 2 % 2 ^ 32 = state.pool.size * 2 := Nat.mod_eq_of_lt (by omega)
      rw [word, if_pos present, InoPool.getUniqueIno]
      have grown : InoPool.Small { state.pool with
          size := state.pool.size * 2, index := state.pool.size * 2 } :=
        ⟨by dsimp only; omega, Nat.le_refl _, sound.initialised⟩
      obtain ⟨whole, _⟩ | ⟨round, less, free, scanned⟩ :=
        InoPool.scan_spec grown (state.pool.size * 2)
      · have clear := sound.clear (state.pool.size * 2) (by omega)
        exact absurd (clear.symm.trans (whole 0 (by omega))) Bool.noConfusion
      · have inside := InoPool.place_le grown.index round
        rw [scanned]
        exact ⟨⟨_, _, rfl, fun _ => sound.fresh (inside.trans few.le) free,
          fun some => absurd full some⟩, _, rfl,
          sound.hand grown.size (Nat.le_mul_of_pos_right _ (by decide)) inside free⟩
  · have inside := InoPool.place_le sound.index round
    rw [scanned]
    exact ⟨⟨_, _, rfl, fun _ => sound.fresh (inside.trans (by omega)) free,
      fun _ => ⟨round, less, free, rfl⟩⟩, _, rfl, sound.hand size (Nat.le_refl _) inside free⟩

theorem Sound.free (sound : Sound base state) (word : base < 2 ^ 32) {ino : Nat}
    (member : ino ∈ state.handed) : Right base state (.free ino) ∧
      ∃ next, step base state (.free ino) = some next ∧ Sound base next := by
  obtain ⟨bit, inside, busy, same⟩ := sound.handed ino member
  have size := sound.size
  have place : minus ino base = bit := by
    rw [minus]
    omega
  have freed : state.pool.freeUniqueIno base ino =
      some { state.pool with busy := update state.pool.busy bit false } := by
    rw [InoPool.freeUniqueIno, place]
    exact if_pos (sound.reads inside)
  rw [Right, step, freed, place]
  refine ⟨⟨_, rfl, update_self ..⟩, _, rfl, { sound with
    clear := ?_, handed := ?_, nodup := sound.nodup.erase ino }⟩
  · intro other behind
    exact (update_of_ne (inside.trans_lt behind).ne' ..).trans (sound.clear other behind)
  · intro other member
    obtain ⟨distinct, member⟩ := sound.nodup.mem_erase_iff.mp member
    obtain ⟨its, within, set, number⟩ := sound.handed other member
    refine ⟨its, within, (update_of_ne ?_ ..).trans set, number⟩
    rintro rfl
    exact distinct (number.trans same.symm)

theorem Sound.calls (sound : Sound base state) (word : base < 2 ^ 32) {calls : List Call}
    (meets : AllMeet base state calls) : AllRight base state calls := by
  induction calls generalizing state with
  | nil => trivial
  | cons call calls ih =>
    obtain ⟨here, later⟩ := meets
    have done : Right base state call ∧ ∃ next, step base state call = some next ∧ Sound base next := by
      cases call with
      | get memory => exact sound.get here
      | free ino => exact sound.free word here
    obtain ⟨right, next, stepped, kept⟩ := done
    exact ⟨right, next, stepped, ih kept (later next stepped)⟩

/-- The numbers of the pool are handed out once as long as it does not have to grow without memory or
to 2048 bytes. -/
theorem numbers_handed_out_once (word : base < 2 ^ 32) (calls : List Call)
    (meets : AllMeet base initial calls) : AllRight base initial calls :=
  initial_sound.calls word meets

/-- A number is handed out and freed. -/
theorem number_handed_out_and_freed :
    AllRight 4096 initial [.get fun _ => false, .free 4096] := by
  refine numbers_handed_out_once (by decide) _ ⟨?_, ?_⟩
  · intro full
    cases full 0 (by decide)
  · intro next stepped
    cases stepped
    exact ⟨List.mem_cons_self, fun _ _ => trivial⟩

theorem AllRight.run_some {calls : List Call} (right : AllRight base state calls) :
    (run base state calls).isSome = true := by
  induction calls generalizing state with
  | nil => rfl
  | cons call calls ih =>
    obtain ⟨_, next, stepped, later⟩ := right
    rw [run, stepped]
    exact ih later

/-- The call after a growth without memory reads bits without an array. -/
theorem not_right_without_memory : ¬ ∀ base calls, base < 2 ^ 32 →
    (∀ call ∈ calls, ∃ memory, call = .get memory) → AllRight base initial calls := by
  intro all
  have right := all 4096 (List.replicate 258 (.get fun _ => false)) (by decide)
    fun call member => ⟨_, List.eq_of_mem_replicate member⟩
  have fails : (run 4096 initial (List.replicate 258 (.get fun _ => false))).isSome = false := by
    decide +kernel
  exact absurd (right.run_some) (by rw [fails]; decide)

end Inos

end Rtems.Dosfs
