import Mathlib.Algebra.Order.Ring.Nat

/-!
# The blocks of a file in memory

The blocks of a file are found through a table, through tables of tables and through tables of tables of
tables. A block and a table have the same size, so that the size of the blocks says how many blocks each
way has.
-/

namespace Rtems.Imfs

open Option (bind_eq_some_iff bind_some isSome_iff_exists)
open Function (update)

/-- The size of the blocks that was configured, and the size of a pointer. -/
structure Config where
  bytesPerBlock : Nat
  pointerSize : Nat
  configured : bytesPerBlock ∈ [16, 32, 64, 128, 256, 512]
  pointer : pointerSize ∈ [4, 8]

namespace Config

variable (config : Config)

/-- `IMFS_MEMFILE_BLOCK_SLOTS` -/
def slots : Nat := config.bytesPerBlock / config.pointerSize

/-- `LAST_INDIRECT` -/
def lastIndirect : Nat := config.slots - 1

/-- `FIRST_DOUBLY_INDIRECT` -/
def firstDoubly : Nat := config.lastIndirect + 1

/-- `LAST_DOUBLY_INDIRECT` -/
def lastDoubly : Nat := config.lastIndirect + config.slots * config.slots

/-- `FIRST_TRIPLY_INDIRECT` -/
def firstTriply : Nat := config.lastDoubly + 1

/-- `LAST_TRIPLY_INDIRECT` -/
def lastTriply : Nat := config.lastDoubly + config.slots * config.slots * config.slots

/-- `IMFS_MEMFILE_MAXIMUM_SIZE` -/
def maximumSize : Nat := config.lastTriply * config.bytesPerBlock

end Config

/-- The bytes of a block. -/
abbrev Block := Nat → UInt8

/-- The slots of a table. -/
abbrev Table (α : Type) := Nat → Option α

/-- `IMFS_memfile_t` -/
structure Memfile where
  size : Nat
  indirect : Option (Table Block)
  doublyIndirect : Option (Table (Table Block))
  triplyIndirect : Option (Table (Table (Table Block)))

/-- A slot that holds a block, as `IMFS_memfile_get_block_pointer` returns it. -/
inductive Entry where
  | indirect (slot : Nat)
  | doubly (doubly singly : Nat)
  | triply (triply doubly singly : Nat)
deriving DecidableEq, Repr

variable (cfg : Config)
variable (config : Config)

/-- The slots are slots of their tables. -/
def Entry.inside : Entry → Bool
  | .indirect slot => decide (slot < config.slots)
  | .doubly upper lower => decide (upper < config.slots ∧ lower < config.slots)
  | .triply top upper lower =>
    decide (top < config.slots ∧ upper < config.slots ∧ lower < config.slots)

/-- What the tables have in a slot. -/
def Memfile.slot (file : Memfile) : Entry → Option Block
  | .indirect slot => file.indirect.bind fun table => table slot
  | .doubly upper lower =>
    (file.doublyIndirect.bind fun table => table upper).bind fun table => table lower
  | .triply top upper lower =>
    ((file.triplyIndirect.bind fun table => table top).bind fun table => table upper).bind
      fun table => table lower

/-- The block in a slot. -/
def Memfile.load (file : Memfile) (entry : Entry) : Option Block :=
  if entry.inside config then file.slot entry else none

/-- Put a block in a slot, or clear the slot. -/
def Memfile.store (file : Memfile) (entry : Entry) (block : Option Block) : Memfile :=
  match entry with
  | .indirect slot =>
    { file with indirect := file.indirect.map fun table => update table slot block }
  | .doubly doubly singly =>
    { file with
      doublyIndirect := file.doublyIndirect.map fun table =>
        update table doubly ((table doubly).map fun table => update table singly block) }
  | .triply triply doubly singly =>
    { file with
      triplyIndirect := file.triplyIndirect.map fun table =>
        update table triply ((table triply).map fun table =>
          update table doubly ((table doubly).map fun table =>
            update table singly block)) }

/-- A table of null pointers, as `calloc` makes it. -/
def emptyTable {α : Type} : Table α := fun _ => none

/-- `IMFS_memfile_get_block_pointer`. There is memory for every table. -/
def getBlockPointer (file : Memfile) (block : Nat) (mallocIt : Bool) : Option Entry × Memfile :=
  if block ≤ config.lastIndirect then
    if mallocIt then
      (some (.indirect block), { file with indirect := some (file.indirect.getD emptyTable) })
    else
      match file.indirect with
      | none => (none, file)
      | some _ => (some (.indirect block), file)
  else if block ≤ config.lastDoubly then
    let myBlock := block - config.firstDoubly
    let singly := myBlock % config.slots
    let doubly := myBlock / config.slots
    if mallocIt then
      let p := file.doublyIndirect.getD emptyTable
      let p1 := (p doubly).getD emptyTable
      (some (.doubly doubly singly),
        { file with doublyIndirect := some (update p doubly (some p1)) })
    else
      match file.doublyIndirect with
      | none => (none, file)
      | some p =>
        match p doubly with
        | none => (none, file)
        | some _ => (some (.doubly doubly singly), file)
  else if block ≤ config.lastTriply then
    let myBlock := block - config.firstTriply
    let singly := myBlock % config.slots
    let doubly := myBlock / config.slots
    let triply := doubly / config.slots
    let doubly := doubly % config.slots
    if mallocIt then
      let p := file.triplyIndirect.getD emptyTable
      let p1 := (p triply).getD emptyTable
      let p2 := (p1 doubly).getD emptyTable
      (some (.triply triply doubly singly),
        { file with
          triplyIndirect := some (update p triply (some (update p1 doubly (some p2)))) })
    else
      match file.triplyIndirect with
      | none => (none, file)
      | some p =>
        match p triply with
        | none => (none, file)
        | some p1 =>
          match p1 doubly with
          | none => (none, file)
          | some _ => (some (.triply triply doubly singly), file)
  else (none, file)

/-- `IMFS_memfile_addblock`: whether there is a slot. There is memory for every block. -/
def addblock (file : Memfile) (block : Nat) : Bool × Memfile :=
  match getBlockPointer config file block true with
  | (none, file) => (false, file)
  | (some entry, file) =>
    match file.load config entry with
    | some _ => (true, file)
    | none => (true, file.store entry (some fun _ => 0))

/-- `IMFS_memfile_remove_block` -/
def removeBlock (file : Memfile) (block : Nat) : Memfile :=
  match getBlockPointer config file block false with
  | (none, file) => file
  | (some entry, file) => file.store entry none

/-- The slot of a block. -/
def entryOf (block : Nat) : Option Entry :=
  if block ≤ config.lastIndirect then some (.indirect block)
  else if block ≤ config.lastDoubly then
    some (.doubly ((block - config.firstDoubly) / config.slots)
      ((block - config.firstDoubly) % config.slots))
  else if block ≤ config.lastTriply then
    some (.triply ((block - config.firstTriply) / config.slots / config.slots)
      ((block - config.firstTriply) / config.slots % config.slots)
      ((block - config.firstTriply) % config.slots))
  else none

/-- The block with a number. -/
def Memfile.find (file : Memfile) (block : Nat) : Option Block :=
  (entryOf config block).bind fun entry => file.load config entry

variable {cfg}

theorem Config.sizes (cfg : Config) :
    0 < cfg.slots ∧ 0 < cfg.bytesPerBlock ∧ cfg.maximumSize < 2 ^ 31 := by
  obtain ⟨bytesPerBlock, pointerSize, configured, pointer⟩ := cfg
  have all : ∀ bytesPerBlock ∈ [16, 32, 64, 128, 256, 512], ∀ pointerSize ∈ [4, 8],
      0 < bytesPerBlock / pointerSize ∧ 0 < bytesPerBlock ∧
        (bytesPerBlock / pointerSize - 1 + bytesPerBlock / pointerSize * (bytesPerBlock / pointerSize) +
          bytesPerBlock / pointerSize * (bytesPerBlock / pointerSize) * (bytesPerBlock / pointerSize)) *
            bytesPerBlock < 2 ^ 31 := by
    decide
  exact all bytesPerBlock configured pointerSize pointer

theorem Config.maximumSize_pos (cfg : Config) : 0 < cfg.maximumSize := by
  obtain ⟨slots, bytesPerBlock, -⟩ := cfg.sizes
  apply Nat.mul_pos _ bytesPerBlock
  exact Nat.lt_of_lt_of_le (Nat.mul_pos (Nat.mul_pos slots slots) slots) (Nat.le_add_left _ _)

/-- Every slot of a block is one of its tables. -/
theorem entryOf_inside {block : Nat} {entry : Entry} (found : entryOf cfg block = some entry) :
    entry.inside cfg = true := by
  obtain ⟨positive, -, -⟩ := cfg.sizes
  rw [entryOf] at found
  split at found
  case isTrue singly =>
    cases found
    rw [Config.lastIndirect] at singly
    exact decide_eq_true (by omega)
  case isFalse notSingly =>
    split at found
    case isTrue doubly =>
      cases found
      rw [Config.lastDoubly] at doubly
      have upper : (block - cfg.firstDoubly) / cfg.slots < cfg.slots := by
        apply Nat.div_lt_of_lt_mul
        rw [Config.firstDoubly]
        omega
      exact decide_eq_true ⟨upper, Nat.mod_lt _ positive⟩
    case isFalse notDoubly =>
      split at found
      case isTrue triply =>
        cases found
        rw [Config.lastTriply] at triply
        have upper : (block - cfg.firstTriply) / cfg.slots / cfg.slots < cfg.slots := by
          apply Nat.div_lt_of_lt_mul
          apply Nat.div_lt_of_lt_mul
          rw [Config.firstTriply, ← Nat.mul_assoc]
          omega
        exact decide_eq_true ⟨upper, Nat.mod_lt _ positive, Nat.mod_lt _ positive⟩
      case isFalse => cases found

/-- Two blocks do not share a slot. -/
theorem entryOf_injective {first second : Nat} {entry : Entry}
    (found : entryOf cfg first = some entry) (same : entryOf cfg second = some entry) :
    first = second := by
  have doublies : cfg.firstDoubly = cfg.lastIndirect + 1 := rfl
  have triplies : cfg.firstTriply = cfg.lastDoubly + 1 := rfl
  rw [entryOf] at found same
  split at found
  · cases found
    split at same
    · injection Option.some.inj same with slot
      exact slot.symm
    · split at same
      · cases same
      · split at same <;> cases same
  · split at found
    · cases found
      split at same
      · cases same
      · split at same
        · injection Option.some.inj same with div mod
          have equal := Nat.ext_div_mod div mod
          omega
        · split at same <;> cases same
    · split at found
      · cases found
        split at same
        · cases same
        · split at same
          · cases same
          · split at same
            · injection Option.some.inj same with div mod remainder
              have equal := Nat.ext_div_mod (Nat.ext_div_mod div mod) remainder
              omega
            · cases same
      · cases found

/-- The tables on the way to a slot exist. -/
def Memfile.Present (file : Memfile) : Entry → Prop
  | .indirect _ => file.indirect.isSome
  | .doubly upper _ => ∃ table, file.doublyIndirect = some table ∧ (table upper).isSome
  | .triply top upper _ => ∃ table below,
      file.triplyIndirect = some table ∧ table top = some below ∧ (below upper).isSome

variable {file : Memfile} {entry other : Entry} {block : Nat} {data : Block}

/-- A slot that holds a block has its tables. -/
theorem Memfile.Present.of_load (loaded : file.load cfg entry = some data) : file.Present entry := by
  rw [load] at loaded
  split at loaded
  case isTrue =>
    cases entry with
    | indirect slot =>
      obtain ⟨table, present, -⟩ := bind_eq_some_iff.mp loaded
      exact isSome_iff_exists.mpr ⟨table, present⟩
    | doubly upper lower =>
      obtain ⟨below, loaded, -⟩ := bind_eq_some_iff.mp loaded
      obtain ⟨table, present, found⟩ := bind_eq_some_iff.mp loaded
      exact ⟨table, present, isSome_iff_exists.mpr ⟨below, found⟩⟩
    | triply top upper lower =>
      obtain ⟨last, loaded, -⟩ := bind_eq_some_iff.mp loaded
      obtain ⟨below, loaded, found⟩ := bind_eq_some_iff.mp loaded
      obtain ⟨table, present, first⟩ := bind_eq_some_iff.mp loaded
      exact ⟨table, below, present, first, isSome_iff_exists.mpr ⟨last, found⟩⟩
  case isFalse => cases loaded

/-- A block that is put in a slot is found there, and the other slots keep theirs. -/
theorem load_store (present : file.Present entry) (inside : entry.inside cfg = true)
    (block : Option Block) :
    (file.store entry block).load cfg other =
      if other = entry then block else file.load cfg other := by
  by_cases same : other = entry
  · subst same
    rw [if_pos rfl, Memfile.load, if_pos inside]
    cases other with
    | indirect slot =>
      obtain ⟨table, found⟩ := isSome_iff_exists.mp present
      simp [Memfile.store, Memfile.slot, found]
    | doubly upper lower =>
      obtain ⟨table, found, below⟩ := present
      obtain ⟨last, below⟩ := isSome_iff_exists.mp below
      simp [Memfile.store, Memfile.slot, found, below]
    | triply top upper lower =>
      obtain ⟨table, below, found, first, last⟩ := present
      obtain ⟨last, second⟩ := isSome_iff_exists.mp last
      simp [Memfile.store, Memfile.slot, found, first, second]
  · rw [if_neg same, Memfile.load, Memfile.load]
    congr 1
    cases entry with
    | indirect slot =>
      obtain ⟨table, found⟩ := isSome_iff_exists.mp present
      cases other with
      | indirect slot' =>
        have differs : slot' ≠ slot := fun equal => same (by rw [equal])
        simp [Memfile.store, Memfile.slot, found, differs]
      | doubly upper' lower' => rfl
      | triply top' upper' lower' => rfl
    | doubly upper lower =>
      obtain ⟨table, found, below⟩ := present
      obtain ⟨last, below⟩ := isSome_iff_exists.mp below
      cases other with
      | indirect slot' => rfl
      | doubly upper' lower' =>
        by_cases upperSame : upper' = upper
        · subst upperSame
          have differs : lower' ≠ lower := fun equal => same (by rw [equal])
          simp [Memfile.store, Memfile.slot, found, below, differs]
        · simp [Memfile.store, Memfile.slot, found, upperSame]
      | triply top' upper' lower' => rfl
    | triply top upper lower =>
      obtain ⟨table, below, found, first, last⟩ := present
      obtain ⟨last, second⟩ := isSome_iff_exists.mp last
      cases other with
      | indirect slot' => rfl
      | doubly upper' lower' => rfl
      | triply top' upper' lower' =>
        by_cases topSame : top' = top
        · subst topSame
          by_cases upperSame : upper' = upper
          · subst upperSame
            have differs : lower' ≠ lower := fun equal => same (by rw [equal])
            simp [Memfile.store, Memfile.slot, found, first, second, differs]
          · simp [Memfile.store, Memfile.slot, found, first, upperSame]
        · simp [Memfile.store, Memfile.slot, found, topSame]

/-- A block is looked up through its tables. -/
theorem getBlockPointer_present (found : entryOf cfg block = some entry)
    (present : file.Present entry) : getBlockPointer cfg file block false = (some entry, file) := by
  rw [entryOf] at found
  rw [getBlockPointer]
  split at found
  case isTrue singly =>
    cases found
    obtain ⟨table, there⟩ := isSome_iff_exists.mp present
    rw [if_pos singly]
    simp [there]
  case isFalse notSingly =>
    rw [if_neg notSingly]
    split at found
    case isTrue doubly =>
      cases found
      obtain ⟨table, there, below⟩ := present
      obtain ⟨last, below⟩ := isSome_iff_exists.mp below
      rw [if_pos doubly]
      simp [there, below]
    case isFalse notDoubly =>
      rw [if_neg notDoubly]
      split at found
      case isTrue triply =>
        cases found
        obtain ⟨table, below, there, first, last⟩ := present
        obtain ⟨last, second⟩ := isSome_iff_exists.mp last
        rw [if_pos triply]
        simp [there, first, second]
      case isFalse => cases found

/-- The tables on the way to a block are made, and no block changes. -/
theorem getBlockPointer_malloc (inside : block ≤ cfg.lastTriply) (file : Memfile) :
    ∃ entry after, getBlockPointer cfg file block true = (some entry, after) ∧
      entryOf cfg block = some entry ∧ after.Present entry ∧ after.size = file.size ∧
      ∀ other, after.load cfg other = file.load cfg other := by
  rw [getBlockPointer, entryOf]
  by_cases singly : block ≤ cfg.lastIndirect
  · rw [if_pos singly, if_pos singly]
    refine ⟨_, _, rfl, rfl, rfl, rfl, ?_⟩
    intro other
    rw [Memfile.load, Memfile.load]
    congr 1
    cases other with
    | indirect slot =>
      cases there : file.indirect with
      | none => simp [Memfile.slot, there, emptyTable]
      | some table => simp [Memfile.slot, there]
    | doubly upper lower => rfl
    | triply top upper lower => rfl
  · rw [if_neg singly, if_neg singly]
    by_cases doubly : block ≤ cfg.lastDoubly
    · rw [if_pos doubly, if_pos doubly]
      refine ⟨_, _, rfl, rfl, ⟨_, rfl, by rw [Function.update_self]; rfl⟩, rfl, ?_⟩
      intro other
      rw [Memfile.load, Memfile.load]
      congr 1
      cases other with
      | indirect slot => rfl
      | doubly upper lower =>
        by_cases same : upper = (block - cfg.firstDoubly) / cfg.slots
        · subst same
          cases there : file.doublyIndirect with
          | none => simp [Memfile.slot, there, emptyTable]
          | some table =>
            cases below : table ((block - cfg.firstDoubly) / cfg.slots) with
            | none => simp [Memfile.slot, there, below, emptyTable]
            | some last => simp [Memfile.slot, there, below]
        · cases there : file.doublyIndirect with
          | none => simp [Memfile.slot, there, emptyTable, same]
          | some table => simp [Memfile.slot, there, same]
      | triply top upper lower => rfl
    · rw [if_neg doubly, if_neg doubly, if_pos inside, if_pos inside]
      refine ⟨_, _, rfl, rfl, ⟨_, _, rfl, Function.update_self _ _ _, by rw [Function.update_self]; rfl⟩,
        rfl, ?_⟩
      intro other
      rw [Memfile.load, Memfile.load]
      congr 1
      cases other with
      | indirect slot => rfl
      | doubly upper lower => rfl
      | triply top upper lower =>
        by_cases topSame : top = (block - cfg.firstTriply) / cfg.slots / cfg.slots
        · subst topSame
          by_cases upperSame : upper = (block - cfg.firstTriply) / cfg.slots % cfg.slots
          · subst upperSame
            cases there : file.triplyIndirect with
            | none => simp [Memfile.slot, there, emptyTable]
            | some table =>
              cases below : table ((block - cfg.firstTriply) / cfg.slots / cfg.slots) with
              | none => simp [Memfile.slot, there, below, emptyTable]
              | some next =>
                cases last : next ((block - cfg.firstTriply) / cfg.slots % cfg.slots) with
                | none => simp [Memfile.slot, there, below, last, emptyTable]
                | some final => simp [Memfile.slot, there, below, last]
          · cases there : file.triplyIndirect with
            | none => simp [Memfile.slot, there, emptyTable, upperSame]
            | some table =>
              cases below : table ((block - cfg.firstTriply) / cfg.slots / cfg.slots) with
              | none => simp [Memfile.slot, there, below, emptyTable, upperSame]
              | some next => simp [Memfile.slot, there, below, upperSame]
        · cases there : file.triplyIndirect with
          | none => simp [Memfile.slot, there, emptyTable, topSame]
          | some table => simp [Memfile.slot, there, topSame]

/-- A block that is allocated is reached. -/
theorem getBlockPointer_find (found : file.find cfg block = some data) :
    ∃ entry, getBlockPointer cfg file block false = (some entry, file) ∧
      file.load cfg entry = some data ∧ entryOf cfg block = some entry := by
  obtain ⟨entry, slot, loaded⟩ := bind_eq_some_iff.mp found
  exact ⟨entry, getBlockPointer_present slot (.of_load loaded), loaded, slot⟩

/-- A block in its slot is the block with its number. -/
theorem find_store (slot : entryOf cfg block = some entry) (present : file.Present entry)
    (stored : Option Block) (tested : Nat) :
    (file.store entry stored).find cfg tested =
      if tested = block then stored else file.find cfg tested := by
  rw [Memfile.find, Memfile.find]
  by_cases same : tested = block
  · rw [if_pos same, same, slot, bind_some, load_store present (entryOf_inside slot), if_pos rfl]
  · rw [if_neg same]
    cases other : entryOf cfg tested with
    | none => rfl
    | some another =>
      rw [bind_some, bind_some, load_store present (entryOf_inside slot), if_neg]
      intro equal
      rw [equal] at other
      exact same (entryOf_injective other slot)

/-- A block is added, with zeros if it is new. -/
theorem addblock_spec (inside : block ≤ cfg.lastTriply) (file : Memfile) :
    ∃ after, addblock cfg file block = (true, after) ∧ after.size = file.size ∧
      ∀ tested, after.find cfg tested =
        if tested = block then some ((file.find cfg block).getD fun _ => 0)
        else file.find cfg tested := by
  obtain ⟨entry, after, pointer, slot, present, size, same⟩ := getBlockPointer_malloc inside file
  have finds : ∀ tested, after.find cfg tested = file.find cfg tested := by
    intro tested
    rw [Memfile.find, Memfile.find]
    congr 1
    funext entry
    exact same entry
  have here : file.find cfg block = file.load cfg entry := by
    rw [Memfile.find, slot, bind_some]
  rw [addblock, pointer]
  dsimp only
  cases loaded : after.load cfg entry with
  | some data =>
    refine ⟨after, rfl, size, ?_⟩
    intro tested
    rw [finds]
    by_cases equal : tested = block
    · rw [if_pos equal, equal, here, ← same, loaded, Option.getD_some]
    · rw [if_neg equal]
  | none =>
    refine ⟨after.store entry (some fun _ => 0), rfl, ?_, ?_⟩
    · cases entry with
      | indirect | doubly | triply => exact size
    · intro tested
      rw [find_store slot present, finds]
      by_cases equal : tested = block
      · rw [if_pos equal, if_pos equal, here, ← same, loaded, Option.getD_none]
      · rw [if_neg equal, if_neg equal]

end Rtems.Imfs
