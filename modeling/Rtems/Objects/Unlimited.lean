import Rtems.Library.Tally
import Rtems.Library.Transition
import Rtems.Objects.Information

/-!
# Unlimited objects

Every sequence of allocations and frees keeps the tables of unlimited objects consistent,
whatever the workspace answers.
-/

namespace Rtems.Objects

open Tally
open Transition
open Function (update update_of_ne update_self)
open List (countP_le_length length_map length_range map_congr_left map_map mem_append mem_cons
  mem_filter mem_map mem_range mem_singleton nodup_cons)
open Nat (div_eq_of_lt mod_eq_of_lt mod_lt succ_mul zero_mul)
open Option (map_none some_ne_none)

/-- The objects of a block. The first block is static. -/
def baseOf (information : Information) (block : Nat) : Option Nat :=
  if block = 0 then some information.initialObjects
  else if block < blockCount information then objectBlock information block
  else none

/-- The object of an index in an allocated block. -/
def objectAt (information : Information) (index : Nat) : Option Nat :=
  (baseOf information (index / information.objectsPerBlock)).map fun base =>
    base + index % information.objectsPerBlock * information.objectSize

/-- The tables, the chain and the identifiers agree. -/
structure Consistent (information : Information) : Prop where
  positive : 0 < information.objectsPerBlock
  size : 0 < information.objectSize
  whole : getMaximumIndex information = blockCount information * information.objectsPerBlock
  first : 1 ≤ blockCount information
  range : information.maximumId < 2 ^ 32
  tables : information.objectBlocks = none ↔ blockCount information = 1
  ids : ∀ index object, objectAt information index = some object →
    (information.objects object).id = apiClassAndNode information + index + 1
  chained : ∀ object ∈ information.inactiveChain,
    objectAt information (tableIndex information object) = some object
  distinct : (information.inactiveChain.map (tableIndex information)).Nodup
  opened : ∀ index < getMaximumIndex information, ∀ object,
    information.localTable index = some object → objectAt information index = some object
  either : ∀ index object, objectAt information index = some object →
    (object ∈ information.inactiveChain ↔ information.localTable index = none)
  perBlock : ∀ block, 1 ≤ block → block < blockCount information →
    information.inactivePerBlock block =
      tally information.objectsPerBlock (tableIndex information) information.inactiveChain block
  inactive : information.inactive = information.inactiveChain.countP fun object =>
    decide (information.objectsPerBlock ≤ tableIndex information object)

section Identifier

variable (info : Information)

theorem getMaximumIndex_lt : getMaximumIndex info < 2 ^ 16 := mod_lt _ (Nat.two_pow_pos 16)

/-- The identifier is the class and node with the index behind it. -/
theorem apiClassAndNode_eq : apiClassAndNode info = 2 ^ 16 * (info.maximumId / 2 ^ 16) := by
  rw [apiClassAndNode, getIndex]
  omega

theorem apiClassAndNode_or {index : Nat} (small : index < 2 ^ 16) :
    apiClassAndNode info ||| index = apiClassAndNode info + index := by
  rw [apiClassAndNode_eq, Nat.two_pow_add_eq_or_of_lt small]

theorem getIndex_add {index : Nat} (small : index < 2 ^ 16) :
    getIndex (apiClassAndNode info + index) = index := by
  rw [apiClassAndNode_eq, getIndex]
  omega

theorem maximumId_eq : info.maximumId = apiClassAndNode info + getMaximumIndex info := by
  rw [apiClassAndNode, getMaximumIndex, getIndex]
  omega

end Identifier

section Append

variable (classAndNode : Nat)

/-- The objects of a new block are behind those that were inactive. -/
theorem appendObjects_eq (info : Information) (obj index count : Nat) :
    appendObjects classAndNode info obj index count = { info with
        objects := (appendObjects classAndNode info obj index count).objects
        inactiveChain := info.inactiveChain ++
          (List.range count).map fun place => obj + place * info.objectSize } := by
  induction count generalizing info obj index with
  | zero =>
    rw [appendObjects, List.range_zero, List.map_nil, List.append_nil]
  | succ count ih =>
    have chain : info.inactiveChain ++ [obj] ++ (List.range count).map (fun place =>
          obj + info.objectSize + place * info.objectSize) =
        info.inactiveChain ++ (List.range (count + 1)).map
          (fun place => obj + place * info.objectSize) := by
      rw [List.append_assoc, List.range_succ_eq_map, List.map_cons, map_map,
        List.singleton_append, zero_mul, Nat.add_zero]
      congr 2
      refine map_congr_left ?_
      intro place _
      rw [Function.comp_apply, succ_mul]
      omega
    rw [appendObjects, ih]
    rw [chain]

/-- Other objects are not changed. -/
theorem appendObjects_of_ne {info : Information} {obj index count other : Nat}
    (ne : ∀ place < count, other ≠ obj + place * info.objectSize) :
    (appendObjects classAndNode info obj index count).objects other =
      info.objects other := by
  induction count generalizing info obj index with
  | zero => rfl
  | succ count ih =>
    rw [appendObjects, ih]
    · have here := ne 0 (Nat.succ_pos count)
      rw [zero_mul, Nat.add_zero] at here
      exact update_of_ne here _ _
    · intro place below
      have there := ne (place + 1) (Nat.succ_lt_succ below)
      rw [succ_mul] at there
      dsimp only
      omega

/-- The identifiers of the objects of a new block. -/
theorem appendObjects_id {info : Information} {obj index count place : Nat}
    (size : 0 < info.objectSize) (below : place < count) :
    ((appendObjects classAndNode info obj index count).objects
      (obj + place * info.objectSize)).id = classAndNode ||| (index + place + 1) := by
  induction count generalizing info obj index place with
  | zero => exact absurd below (Nat.not_lt_zero place)
  | succ count ih =>
    rw [appendObjects]
    cases place with
    | zero =>
      simp only [zero_mul, Nat.add_zero]
      rw [appendObjects_of_ne]
      · dsimp only
        rw [update_self]
      · omega
    | succ place =>
      have same := @ih { info with
          objects := update info.objects obj
            { info.objects obj with id := classAndNode ||| (index + 1) }
          inactiveChain := info.inactiveChain ++ [obj] }
        (obj + info.objectSize) (index + 1) place size (Nat.lt_of_succ_lt_succ below)
      have there : obj + info.objectSize + place * info.objectSize =
          obj + (place + 1) * info.objectSize := by
        rw [succ_mul]
        omega
      rw [there] at same
      rw [same]
      congr 1
      omega

end Append


/-- The identifier of an index leads to its entry. -/
theorem getNoProtection_at {info : Information} (range : info.maximumId < 2 ^ 32)
    {index : Nat} (below : index < getMaximumIndex info) :
    getNoProtection (apiClassAndNode info + index + 1) info =
      info.localTable index := by
  have split := maximumId_eq info
  have last : getIndex info.maximumId = getMaximumIndex info := rfl
  rw [getNoProtection, last]
  have delta : (info.maximumId + 2 ^ 32 - (apiClassAndNode info + index + 1)) %
      2 ^ 32 = getMaximumIndex info - 1 - index := by
    omega
  have place : getMaximumIndex info - 1 - (getMaximumIndex info - 1 - index) =
      index := by
    omega
  rw [delta, if_pos (by omega), place]

variable {block : Nat}

namespace Consistent

variable {info : Information}

section

variable (consistent : Consistent info)
include consistent

/-- Only indexes below the maximum have objects. -/
theorem lt_of_objectAt {index obj : Nat}
    (found : objectAt info index = some obj) : index < getMaximumIndex info := by
  obtain ⟨base, present, -⟩ := Option.map_eq_some_iff.mp found
  have below : index / info.objectsPerBlock < blockCount info := by
    rw [baseOf] at present
    split at present
    next first =>
      rw [first]
      exact consistent.first
    next =>
      split at present
      next below => exact below
      next => cases present
  rw [consistent.whole]
  exact (Nat.div_lt_iff_lt_mul consistent.positive).mp below

/-- The index of an object is in its identifier. -/
theorem tableIndex_eq {index obj : Nat}
    (found : objectAt info index = some obj) : tableIndex info obj = index := by
  have below := consistent.lt_of_objectAt found
  have small := getMaximumIndex_lt info
  rw [tableIndex, consistent.ids index obj found, Nat.add_assoc,
    getIndex_add info (by omega), Nat.add_sub_cancel]

/-- Two indexes do not have the same object. -/
theorem index_eq {index other obj : Nat} (found : objectAt info index = some obj)
    (again : objectAt info other = some obj) : index = other := by
  rw [← consistent.tableIndex_eq found, consistent.tableIndex_eq again]

/-- An object is on the chain once. -/
theorem nodup : info.inactiveChain.Nodup := consistent.distinct.of_map _

/-- There are not more inactive objects than indexes. -/
theorem length_le : info.inactiveChain.length ≤ getMaximumIndex info := by
  have inside : info.inactiveChain.map (tableIndex info) ⊆ List.range (getMaximumIndex info) := by
    intro index mem
    obtain ⟨obj, chained, rfl⟩ := mem_map.mp mem
    exact mem_range.mpr (consistent.lt_of_objectAt (consistent.chained obj chained))
  have bound := (consistent.distinct.subperm inside).length_le
  rwa [length_map, length_range] at bound

/-- The counters are far from their limits. -/
theorem inactive_le : info.inactive ≤ getMaximumIndex info := by
  rw [consistent.inactive]
  exact countP_le_length.trans consistent.length_le

theorem inactivePerBlock_le (allocated : 1 ≤ block) (below : block < blockCount info) :
    info.inactivePerBlock block ≤ getMaximumIndex info := by
  rw [consistent.perBlock block allocated below, tally]
  exact countP_le_length.trans consistent.length_le

/-- What the identifier table has is found under its identifier. -/
theorem getNoProtection_iff {id obj : Nat} (small : id < 2 ^ 32) :
    getNoProtection id info = some obj ↔
      ∃ index < getMaximumIndex info, info.localTable index = some obj ∧
        id = apiClassAndNode info + index + 1 := by
  have range := consistent.range
  have split := maximumId_eq info
  have last : getIndex info.maximumId = getMaximumIndex info := rfl
  rw [getNoProtection, last]
  constructor
  · intro found
    split at found
    next inside => refine ⟨_, ?_, found, ?_⟩ <;> omega
    next => cases found
  · rintro ⟨index, below, found, rfl⟩
    exact (getNoProtection_at range below).trans found

end

/-- Both look the object up in the same way. -/
theorem get_eq (id : Nat) (info : Information) : get id info = getNoProtection id info := by
  rw [get, getNoProtection]
  split
  next => cases info.localTable _ <;> rfl
  next => rfl

end Consistent

/-- The search stops at the first free place, or behind the last block. -/
theorem searchBlock_spec (blocks : Nat → Option Nat) (extendCount remaining block indexBase : Nat) :
    ((searchBlock blocks extendCount remaining block indexBase).1 = true ∧
      (searchBlock blocks extendCount remaining block indexBase).2 =
        (block + remaining, indexBase + remaining * extendCount)) ∨
    ((searchBlock blocks extendCount remaining block indexBase).1 = false ∧
      ∃ passed < remaining, blocks (block + passed) = none ∧
        (searchBlock blocks extendCount remaining block indexBase).2 =
          (block + passed, indexBase + passed * extendCount)) := by
  induction remaining generalizing block indexBase with
  | zero =>
    refine .inl ⟨rfl, ?_⟩
    rw [zero_mul]
    rfl
  | succ remaining ih =>
    rw [searchBlock]
    split
    next free =>
      refine .inr ⟨rfl, 0, Nat.succ_pos remaining, free, ?_⟩
      rw [zero_mul]
      rfl
    next =>
      obtain ⟨extends_, found⟩ | ⟨stays, passed, below, free, found⟩ :=
        ih (block + 1) (indexBase + extendCount)
      · refine .inl ⟨extends_, ?_⟩
        rw [found, succ_mul]
        congr 1 <;> omega
      · refine .inr ⟨stays, passed + 1, Nat.succ_lt_succ below, ?_, ?_⟩
        · rw [← Nat.add_assoc, Nat.add_right_comm]
          exact free
        · rw [found, succ_mul]
          congr 1 <;> omega

/-- A new block is in the tables. -/
structure Extended (information extended : Information) (block base : Nat) : Prop where
  objectsPerBlock : extended.objectsPerBlock = information.objectsPerBlock
  objectSize : extended.objectSize = information.objectSize
  range : extended.maximumId < 2 ^ 32
  apiClassAndNode : apiClassAndNode extended = apiClassAndNode information
  whole : getMaximumIndex extended = blockCount extended * information.objectsPerBlock
  more : getMaximumIndex information ≤ getMaximumIndex extended
  tables : extended.objectBlocks ≠ none
  first : 1 ≤ block
  below : block < blockCount extended
  counted : ∀ other < blockCount extended, other ≠ block → other < blockCount information
  limit : getMaximumIndex information + information.objectsPerBlock ≤ finalIndex
  free : baseOf information block = none
  bases : baseOf extended = Function.update (baseOf information) block (some base)
  localTable : ∀ index < getMaximumIndex extended, extended.localTable index =
    if index < getMaximumIndex information then information.localTable index else none
  perBlock : ∀ other, 1 ≤ other → other < blockCount extended →
    extended.inactivePerBlock other =
      if other = block then information.objectsPerBlock else information.inactivePerBlock other
  inactive : extended.inactive = toMaximum (information.inactive + information.objectsPerBlock)
  chain : extended.inactiveChain = information.inactiveChain ++
    (List.range information.objectsPerBlock).map fun place =>
      base + place * information.objectSize
  ids : ∀ place < information.objectsPerBlock,
    (extended.objects (base + place * information.objectSize)).id =
      Objects.apiClassAndNode information + (block * information.objectsPerBlock + place) + 1
  others : ∀ object, (∀ place < information.objectsPerBlock,
    object ≠ base + place * information.objectSize) →
      extended.objects object = information.objects object

namespace Consistent

variable {info : Information}

/-- Where a new block goes. -/
theorem findBlock_spec (consistent : Consistent info) :
    (findBlock info).2.2 = (findBlock info).2.1 * info.objectsPerBlock ∧
      1 ≤ (findBlock info).2.1 ∧ ((findBlock info).1 = true ∧
          (findBlock info).2.1 = blockCount info ∨ (findBlock info).1 = false ∧
          (findBlock info).2.1 < blockCount info ∧ info.objectBlocks ≠ none ∧
          objectBlock info (findBlock info).2.1 = none) := by
  have first := consistent.first
  cases found : info.objectBlocks with
  | none =>
    have one := consistent.tables.mp found
    rw [findBlock, found, one]
    refine ⟨(Nat.one_mul _).symm, Nat.le_refl 1, .inl ⟨rfl, rfl⟩⟩
  | some blocks =>
    rw [findBlock, found]
    obtain ⟨extends_, place⟩ | ⟨stays, passed, below, free, place⟩ :=
      searchBlock_spec blocks info.objectsPerBlock (blockCount info - 1) 1 info.objectsPerBlock
    · rw [place, extends_]
      have last : 1 + (blockCount info - 1) = blockCount info := by omega
      refine ⟨?_, Nat.le_add_right 1 _, .inl ⟨rfl, last⟩⟩
      rw [Nat.add_mul, Nat.one_mul]
    · rw [place, stays]
      refine ⟨?_, Nat.le_add_right 1 _, .inr ⟨rfl, by dsimp only; omega, some_ne_none _, ?_⟩⟩
      · rw [Nat.add_mul, Nat.one_mul]
      · rw [objectBlock, found]
        exact free

/-- The tables have a place for the new block. -/
structure Prepared (information middle : Information) (block : Nat) : Prop where
  objectsPerBlock : middle.objectsPerBlock = information.objectsPerBlock
  objectSize : middle.objectSize = information.objectSize
  inactive : middle.inactive = information.inactive
  chain : middle.inactiveChain = information.inactiveChain
  objects : middle.objects = information.objects
  range : middle.maximumId < 2 ^ 32
  apiClassAndNode : Objects.apiClassAndNode middle = Objects.apiClassAndNode information
  whole : getMaximumIndex middle = blockCount middle * information.objectsPerBlock
  more : getMaximumIndex information ≤ getMaximumIndex middle
  tables : middle.objectBlocks ≠ none
  below : block < blockCount middle
  counted : ∀ other < blockCount middle, other ≠ block → other < blockCount information
  bases : ∀ other, other ≠ block → baseOf middle other = baseOf information other
  localTable : ∀ index < getMaximumIndex middle, middle.localTable index =
    if index < getMaximumIndex information then information.localTable index else none
  perBlock : ∀ other, other ≠ block → 1 ≤ other → other < blockCount middle →
    middle.inactivePerBlock other = information.inactivePerBlock other

/-- The new block is assigned to its place. -/
theorem assigned (consistent : Consistent info) {middle : Information}
    (prepared : Prepared info middle block) (first : 1 ≤ block)
    (limit : getMaximumIndex info + info.objectsPerBlock ≤ finalIndex)
    (free : baseOf info block = none) (base : Nat) :
    Extended info (assignBlock (apiClassAndNode info) middle block base
      (block * info.objectsPerBlock)) block base := by
  have small := getMaximumIndex_lt middle
  have inside : block * info.objectsPerBlock + info.objectsPerBlock ≤
      getMaximumIndex middle := by
    rw [prepared.whole, ← succ_mul]
    exact Nat.mul_le_mul_right _ prepared.below
  have size := consistent.size
  rw [assignBlock, appendObjects_eq]
  constructor
  · exact prepared.objectsPerBlock
  · exact prepared.objectSize
  · exact prepared.range
  · exact prepared.apiClassAndNode
  · exact prepared.whole
  · exact prepared.more
  · rw [ne_eq, Option.map_eq_none_iff]
    exact prepared.tables
  · exact first
  · exact prepared.below
  · exact prepared.counted
  · exact limit
  · exact free
  · obtain ⟨blocks, present⟩ := Option.ne_none_iff_exists'.mp prepared.tables
    funext other
    by_cases here : other = block
    · subst here
      rw [update_self, baseOf, if_neg (by omega)]
      refine (if_pos prepared.below).trans ?_
      rw [present]
      exact update_self _ _ _
    · rw [update_of_ne here, ← prepared.bases other here, baseOf, baseOf]
      have entry : ∀ (changed : Information), changed.objectBlocks = middle.objectBlocks.map
          (fun blocks => update blocks block (some base)) →
          objectBlock changed other = objectBlock middle other := by
        intro changed same
        rw [objectBlock, objectBlock, same, present]
        exact update_of_ne here _ _
      rw [entry _ rfl]
      rfl
  · exact prepared.localTable
  · intro other allocated below
    dsimp only
    by_cases here : other = block
    · subst here
      rw [update_self, if_pos rfl, prepared.objectsPerBlock]
    · rw [update_of_ne here, if_neg here]
      exact prepared.perBlock other here allocated below
  · rw [prepared.inactive, prepared.objectsPerBlock]
  · rw [prepared.chain, prepared.objectsPerBlock, prepared.objectSize]
  · intro place below
    have named := @appendObjects_id (apiClassAndNode info) { middle with
        objectBlocks := middle.objectBlocks.map fun blocks => update blocks block (some base)
        inactivePerBlock := update middle.inactivePerBlock block middle.objectsPerBlock
        inactive := toMaximum (middle.inactive + middle.objectsPerBlock) }
      base (block * info.objectsPerBlock) middle.objectsPerBlock place
      (by dsimp only; rw [prepared.objectSize]; exact size)
      (by rw [prepared.objectsPerBlock]; exact below)
    rw [← prepared.objectSize, named, apiClassAndNode_or info (by omega), Nat.add_assoc]
    omega
  · intro obj ne
    rw [appendObjects_of_ne]
    · exact congrFun prepared.objects obj
    · intro place below
      rw [prepared.objectSize]
      exact ne place (prepared.objectsPerBlock ▸ below)

/-- A free place in the tables. -/
theorem prepared_self (consistent : Consistent info) (tables : info.objectBlocks ≠ none)
    (below : block < blockCount info) :
    Prepared info info block := by
  constructor
  case range => exact consistent.range
  case whole => exact consistent.whole
  case tables => exact tables
  case below => exact below
  case counted => exact fun other inside _ => inside
  case localTable =>
    intro index inside
    rw [if_pos inside]
  all_goals first | rfl | exact Nat.le_refl _ | (intros; rfl)

/-- The tables are extended by one block. -/
theorem prepared_grow (consistent : Consistent info) (area : Area)
    (limit : getMaximumIndex info + info.objectsPerBlock ≤ finalIndex) :
    Prepared info (growTables info area (blockCount info)
      (getMaximumIndex info + info.objectsPerBlock)
      (blockCount info * info.objectsPerBlock)) (blockCount info) := by
  have pos := consistent.positive
  have whole := consistent.whole
  have range := consistent.range
  have aligned := apiClassAndNode_eq info
  rw [finalIndex] at limit
  have small : getMaximumIndex info + info.objectsPerBlock < 2 ^ 16 := by omega
  have maximumId : (growTables info area (blockCount info)
      (getMaximumIndex info + info.objectsPerBlock)
      (blockCount info * info.objectsPerBlock)).maximumId =
      apiClassAndNode info + (getMaximumIndex info + info.objectsPerBlock) :=
    apiClassAndNode_or info small
  have maximum : getMaximumIndex (growTables info area (blockCount info)
      (getMaximumIndex info + info.objectsPerBlock)
      (blockCount info * info.objectsPerBlock)) =
      getMaximumIndex info + info.objectsPerBlock := by
    rw [getMaximumIndex, maximumId, getIndex_add info small]
  have count : blockCount (growTables info area (blockCount info)
      (getMaximumIndex info + info.objectsPerBlock)
      (blockCount info * info.objectsPerBlock)) = blockCount info + 1 := by
    rw [blockCount, maximum]
    exact Nat.add_div_right _ pos
  have before : info.objectsPerBlock < getMaximumIndex info ↔ 1 < blockCount info := by
    rw [whole]
    exact Nat.lt_mul_iff_one_lt_left pos
  constructor
  case range => omega
  case apiClassAndNode =>
    rw [apiClassAndNode, maximumId, getIndex_add info small, Nat.add_sub_cancel]
  case whole => rw [count, maximum, whole, succ_mul]
  case more =>
    rw [maximum]
    exact Nat.le_add_right _ _
  case tables =>
    rw [growTables]
    split <;> exact some_ne_none _
  case below =>
    rw [count]
    exact Nat.lt_succ_self _
  case counted =>
    omega
  case bases =>
    intro other ne
    rw [baseOf, baseOf, count]
    split
    next => rfl
    next later =>
      by_cases below : other < blockCount info
      · rw [if_pos below, if_pos (Nat.lt_succ_of_lt below), objectBlock, growTables]
        dsimp only
        rw [if_pos (before.mpr (by omega))]
        exact if_pos below
      · rw [if_neg below, if_neg (by omega)]
  case localTable =>
    intro index below
    rw [growTables]
    dsimp only
    by_cases inside : index < getMaximumIndex info
    · rw [if_neg (by omega), if_pos inside, copy, if_pos inside]
    · rw [if_pos (by omega), if_neg inside]
  case perBlock =>
    intro other ne allocated below
    rw [growTables]
    dsimp only
    rw [if_pos (before.mpr (by omega)), copy, if_pos (by omega)]
  all_goals rfl

end Consistent

/-- The new block is not in the memory of a block that is in use. -/
def Apart (information : Information) (base : Nat) : Prop :=
  ∀ block < blockCount information, ∀ used ∈ baseOf information block,
    base + information.objectsPerBlock * information.objectSize ≤ used ∨
      used + information.objectsPerBlock * information.objectSize ≤ base

namespace Extended

variable {info extended : Information} {block base : Nat}

/-- The objects of the new block and those before. -/
theorem objectAt_eq (ext : Extended info extended block base) (index : Nat) :
    objectAt extended index = if index / info.objectsPerBlock = block then
      some (base + index % info.objectsPerBlock * info.objectSize)
    else objectAt info index := by
  rw [objectAt, ext.objectsPerBlock, ext.objectSize, ext.bases]
  split
  next here =>
    rw [here, update_self]
    rfl
  next there =>
    rw [update_of_ne there]
    rfl

/-- The objects before are not in the new block. -/
theorem ne_of_objectAt (consistent : Consistent info) (apart : Apart info base)
    {index obj : Nat} (found : objectAt info index = some obj) :
    ∀ place < info.objectsPerBlock, obj ≠ base + place * info.objectSize := by
  intro place below
  have inside := consistent.lt_of_objectAt found
  obtain ⟨used, present, rfl⟩ := Option.map_eq_some_iff.mp found
  have count : index / info.objectsPerBlock < blockCount info := by
    rw [consistent.whole] at inside
    exact (Nat.div_lt_iff_lt_mul consistent.positive).mpr inside
  have later := mod_lt index consistent.positive
  have own : index % info.objectsPerBlock * info.objectSize +
      info.objectSize ≤ info.objectsPerBlock * info.objectSize := by
    rw [← succ_mul]
    exact Nat.mul_le_mul_right _ later
  have new : place * info.objectSize + info.objectSize ≤
      info.objectsPerBlock * info.objectSize := by
    rw [← succ_mul]
    exact Nat.mul_le_mul_right _ below
  have size := consistent.size
  have separate := apart _ count used present
  omega

section

variable (ext : Extended info extended block base)
include ext

/-- The index of an object does not change. -/
theorem tableIndex_eq (consistent : Consistent info) (apart : Apart info base)
    {index obj : Nat} (found : objectAt info index = some obj) :
    tableIndex extended obj = tableIndex info obj := by
  rw [tableIndex, ext.others obj (ne_of_objectAt consistent apart found), tableIndex]

theorem tableIndex_new {place : Nat} (below : place < info.objectsPerBlock) :
    tableIndex extended (base + place * info.objectSize) =
      block * info.objectsPerBlock + place := by
  have limit := getMaximumIndex_lt extended
  have inside : block * info.objectsPerBlock + info.objectsPerBlock ≤
      getMaximumIndex extended := by
    rw [ext.whole, ← succ_mul]
    exact Nat.mul_le_mul_right _ ext.below
  rw [tableIndex, ext.ids place below, Nat.add_assoc,
    getIndex_add info (by omega), Nat.add_sub_cancel]

/-- The place of a new block had no objects. -/
theorem objectAt_none {index : Nat}
    (here : index / info.objectsPerBlock = block) : objectAt info index = none := by
  rw [objectAt, here, ext.free]
  rfl

/-- The tables are consistent with the new block. -/
theorem consistent (before : Consistent info) (apart : Apart info base) : Consistent extended := by
  have pos := before.positive
  have old : ∀ obj ∈ info.inactiveChain,
      tableIndex extended obj = tableIndex info obj := fun obj mem =>
    ext.tableIndex_eq before apart (before.chained obj mem)
  have new_div : ∀ place < info.objectsPerBlock,
      (block * info.objectsPerBlock + place) / info.objectsPerBlock = block := by
    intro place below
    rw [Nat.add_comm, Nat.add_mul_div_right _ _ pos, div_eq_of_lt below, Nat.zero_add]
  have keys : ((List.range info.objectsPerBlock).map fun place =>
      base + place * info.objectSize).map (tableIndex extended) =
      (List.range info.objectsPerBlock).map fun place =>
        block * info.objectsPerBlock + place := by
    rw [map_map]
    refine map_congr_left ?_
    intro place mem
    exact ext.tableIndex_new (mem_range.mp mem)
  have new_page : ∀ obj ∈ (List.range info.objectsPerBlock).map fun place =>
      base + place * info.objectSize,
      tableIndex extended obj / info.objectsPerBlock = block := by
    intro obj mem
    obtain ⟨place, inside, rfl⟩ := mem_map.mp mem
    rw [ext.tableIndex_new (mem_range.mp inside)]
    exact new_div place (mem_range.mp inside)
  have off_page : ∀ obj ∈ info.inactiveChain,
      tableIndex extended obj / info.objectsPerBlock ≠ block := by
    intro obj mem here
    rw [old obj mem] at here
    have found := before.chained obj mem
    rw [ext.objectAt_none here] at found
    cases found
  constructor
  case positive => rw [ext.objectsPerBlock]; exact pos
  case size => rw [ext.objectSize]; exact before.size
  case whole => rw [ext.objectsPerBlock]; exact ext.whole
  case first => exact Nat.le_of_lt (Nat.lt_of_le_of_lt ext.first ext.below)
  case range => exact ext.range
  case tables =>
    constructor
    · intro none
      exact absurd none ext.tables
    · intro one
      have below := ext.below
      rw [one] at below
      exact absurd ext.first (Nat.not_le_of_lt below)
  case ids =>
    intro index obj found
    rw [ext.objectAt_eq] at found
    rw [ext.apiClassAndNode]
    split at found
    next here =>
      cases found
      have split := Nat.div_add_mod' index info.objectsPerBlock
      rw [here] at split
      rw [ext.ids _ (mod_lt index pos), split]
    next =>
      rw [ext.others obj (ne_of_objectAt before apart found)]
      exact before.ids index obj found
  case chained =>
    intro obj mem
    rw [ext.chain, mem_append] at mem
    rw [ext.objectAt_eq]
    obtain there | here := mem
    · rw [if_neg (off_page obj there), old obj there]
      exact before.chained obj there
    · rw [if_pos (new_page obj here)]
      obtain ⟨place, inside, rfl⟩ := mem_map.mp here
      rw [ext.tableIndex_new (mem_range.mp inside), Nat.add_comm (block * _),
        Nat.add_mul_mod_self_right, mod_eq_of_lt (mem_range.mp inside)]
  case distinct =>
    rw [ext.chain, List.map_append, keys, map_congr_left old, List.nodup_append']
    refine ⟨before.distinct, ?_, ?_⟩
    · exact List.nodup_range.map fun first second same => Nat.add_left_cancel same
    · intro index there here
      obtain ⟨obj, mem, rfl⟩ := mem_map.mp there
      obtain ⟨place, inside, same⟩ := mem_map.mp here
      refine off_page obj mem ?_
      rw [old obj mem, ← same]
      exact new_div place (mem_range.mp inside)
  case opened =>
    intro index below obj found
    rw [ext.localTable index below] at found
    split at found
    next inside =>
      have present := before.opened index inside obj found
      rw [ext.objectAt_eq, if_neg]
      · exact present
      · intro here
        rw [ext.objectAt_none here] at present
        cases present
    next => cases found
  case either =>
    intro index obj found
    have below : index < getMaximumIndex extended := by
      rw [ext.objectAt_eq] at found
      split at found
      next here =>
        rw [ext.whole, ← Nat.div_lt_iff_lt_mul pos, here]
        exact ext.below
      next => exact Nat.lt_of_lt_of_le (before.lt_of_objectAt found) ext.more
    rw [ext.localTable index below, ext.chain, mem_append]
    rw [ext.objectAt_eq] at found
    split at found
    next here =>
      cases found
      have listed : base + index % info.objectsPerBlock * info.objectSize ∈
          (List.range info.objectsPerBlock).map fun place =>
            base + place * info.objectSize :=
        mem_map.mpr ⟨_, mem_range.mpr (mod_lt index pos), rfl⟩
      have closed : (if index < getMaximumIndex info then info.localTable index
          else none) = none := by
        split
        next inside =>
          cases entry : info.localTable index with
          | none => rfl
          | some obj =>
            have present := before.opened index inside obj entry
            rw [ext.objectAt_none here] at present
            cases present
        next => rfl
      exact iff_of_true (.inr listed) closed
    next there =>
      have unlisted : obj ∉ (List.range info.objectsPerBlock).map fun place =>
          base + place * info.objectSize := by
        intro listed
        obtain ⟨place, inside, same⟩ := mem_map.mp listed
        exact ne_of_objectAt before apart found place (mem_range.mp inside) same.symm
      rw [if_pos (before.lt_of_objectAt found), or_iff_left unlisted]
      exact before.either index obj found
  case perBlock =>
    intro other allocated below
    rw [ext.perBlock other allocated below, ext.objectsPerBlock, ext.chain, tally_append]
    split
    next here =>
      subst here
      rw [tally_none off_page, tally_same new_page, length_map, length_range, Nat.zero_add]
    next there =>
      rw [tally_none fun obj mem here => there (here.symm.trans (new_page obj mem)),
        Nat.add_zero, tally_congr old]
      exact before.perBlock other allocated (ext.counted other below there)
  case inactive =>
    have limit := ext.limit
    have small := before.inactive_le
    have all_new : ((List.range info.objectsPerBlock).map fun place =>
        base + place * info.objectSize).countP
          (fun obj => decide (info.objectsPerBlock ≤ tableIndex extended obj)) =
        info.objectsPerBlock := by
      rw [List.countP_eq_length.mpr, length_map, length_range]
      intro obj mem
      refine decide_eq_true ?_
      rw [← Nat.one_le_div_iff pos, new_page obj mem]
      exact ext.first
    have same : info.inactiveChain.countP
          (fun obj => decide (info.objectsPerBlock ≤ tableIndex extended obj)) =
        info.inactive := by
      rw [before.inactive]
      refine List.countP_congr ?_
      intro obj mem
      rw [old obj mem]
    rw [ext.inactive, ext.objectsPerBlock, ext.chain, List.countP_append,
      all_new, same, toMaximum, mod_eq_of_lt]
    rw [finalIndex] at limit
    omega

end

end Extended

/-- An extension fails and changes nothing, or there is a new block. -/
theorem Consistent.extendInformation {info : Information}
    (consistent : Consistent info) (newBlock : Option Nat) (tables : Option Area) :
    Objects.extendInformation info newBlock tables = (info, 0) ∨
      ∃ block base, newBlock = some base ∧
        (Objects.extendInformation info newBlock tables).2 = block ∧
        Extended info (Objects.extendInformation info newBlock tables).1 block base := by
  obtain ⟨start, first, place⟩ := consistent.findBlock_spec
  rw [Objects.extendInformation]
  dsimp only
  split
  next => exact .inl rfl
  next limit =>
    have limit := Nat.le_of_not_gt limit
    cases newBlock with
    | none => exact .inl rfl
    | some base =>
      obtain ⟨grow, last⟩ | ⟨stay, below, present, free⟩ := place
      · dsimp only
        rw [grow, if_pos rfl]
        cases tables with
        | none => exact .inl rfl
        | some area =>
          refine .inr ⟨_, base, rfl, rfl, ?_⟩
          rw [start, last]
          refine consistent.assigned (consistent.prepared_grow area limit) consistent.first limit
            ?_ base
          rw [baseOf, if_neg (Nat.one_le_iff_ne_zero.mp consistent.first), if_neg (Nat.lt_irrefl _)]
      · dsimp only
        rw [stay, if_neg Bool.false_ne_true]
        refine .inr ⟨_, base, rfl, rfl, ?_⟩
        rw [start]
        refine consistent.assigned (consistent.prepared_self present below) first limit ?_ base
        rw [baseOf, if_neg (Nat.one_le_iff_ne_zero.mp first), if_pos below]
        exact free

/-- The blocks and the identifiers are the same. -/
structure Same (information changed : Information) : Prop where
  maximumId : changed.maximumId = information.maximumId
  objectsPerBlock : changed.objectsPerBlock = information.objectsPerBlock
  objectSize : changed.objectSize = information.objectSize
  objectBlocks : changed.objectBlocks = information.objectBlocks
  initialObjects : changed.initialObjects = information.initialObjects
  ids : ∀ object, (changed.objects object).id = (information.objects object).id

namespace Same

variable {info changed : Information}

section

variable (same : Same info changed)
include same

theorem getMaximumIndex_eq : getMaximumIndex changed = getMaximumIndex info := by
  rw [getMaximumIndex, same.maximumId, getMaximumIndex]

theorem apiClassAndNode_eq : apiClassAndNode changed = apiClassAndNode info := by
  rw [apiClassAndNode, same.maximumId, apiClassAndNode]

theorem blockCount_eq : blockCount changed = blockCount info := by
  rw [blockCount, same.getMaximumIndex_eq, same.objectsPerBlock, blockCount]

theorem objectAt_eq (index : Nat) : objectAt changed index = objectAt info index := by
  rw [objectAt, baseOf, objectBlock, same.blockCount_eq, same.objectsPerBlock, same.objectSize,
    same.objectBlocks, same.initialObjects, objectAt, baseOf, objectBlock]

theorem tableIndex_eq : tableIndex changed = tableIndex info := by
  funext obj
  rw [tableIndex, same.ids, tableIndex]

/-- What is left to show if the blocks and the identifiers do not change. -/
theorem consistent (before : Consistent info) (chained : ∀ obj ∈ changed.inactiveChain,
      objectAt info (tableIndex info obj) = some obj)
    (distinct : (changed.inactiveChain.map (tableIndex info)).Nodup) (opened : ∀ index <
      getMaximumIndex info, ∀ obj, changed.localTable index = some obj → objectAt
      info index = some obj) (either : ∀ index obj, objectAt info index = some
      obj → (obj ∈ changed.inactiveChain ↔ changed.localTable index = none)) (perBlock : ∀
      block, 1 ≤ block → block < blockCount info → changed.inactivePerBlock block = tally
      info.objectsPerBlock (tableIndex info) changed.inactiveChain block) (inactive :
      changed.inactive = changed.inactiveChain.countP fun obj => decide
      (info.objectsPerBlock ≤ tableIndex info obj)) : Consistent changed := by
  constructor
  case positive => rw [same.objectsPerBlock]; exact before.positive
  case size => rw [same.objectSize]; exact before.size
  case whole =>
    rw [same.getMaximumIndex_eq, same.blockCount_eq, same.objectsPerBlock]
    exact before.whole
  case first => rw [same.blockCount_eq]; exact before.first
  case range => rw [same.maximumId]; exact before.range
  case tables => rw [same.objectBlocks, same.blockCount_eq]; exact before.tables
  case ids =>
    intro index obj found
    rw [same.objectAt_eq] at found
    rw [same.ids, same.apiClassAndNode_eq]
    exact before.ids index obj found
  case chained =>
    intro obj mem
    rw [same.objectAt_eq, same.tableIndex_eq]
    exact chained obj mem
  case distinct => rw [same.tableIndex_eq]; exact distinct
  case opened =>
    intro index below obj found
    rw [same.getMaximumIndex_eq] at below
    rw [same.objectAt_eq]
    exact opened index below obj found
  case either =>
    intro index obj found
    rw [same.objectAt_eq] at found
    exact either index obj found
  case perBlock =>
    intro block allocated below
    rw [same.blockCount_eq] at below
    rw [same.objectsPerBlock, same.tableIndex_eq]
    exact perBlock block allocated below
  case inactive =>
    rw [same.objectsPerBlock, same.tableIndex_eq]
    exact inactive

end

end Same

/-- An object is taken from the chain, counted and opened. -/
def takeObject (information : Information) (object : Nat) (rest : List Nat) (name : Nat) :
    Information :=
  openU32 (activateUnlimited { information with inactiveChain := rest } object) object name

section Take

variable {info : Information} {obj name : Nat} {rest : List Nat}

theorem takeObject_localTable : (takeObject info obj rest name).localTable =
    update info.localTable (tableIndex info obj) (some obj) := by
  rw [takeObject, openU32, activateUnlimited]
  split <;> rfl

theorem takeObject_inactiveChain : (takeObject info obj rest name).inactiveChain =
    rest := by
  rw [takeObject, openU32, activateUnlimited]
  split <;> rfl

theorem takeObject_same : Same info (takeObject info obj rest name) := by
  have counted : Same info (activateUnlimited { info with inactiveChain := rest } obj) := by
    rw [activateUnlimited]
    split <;> exact ⟨rfl, rfl, rfl, rfl, rfl, fun _ => rfl⟩
  refine ⟨counted.maximumId, counted.objectsPerBlock, counted.objectSize, counted.objectBlocks,
    counted.initialObjects, ?_⟩
  intro other
  rw [← counted.ids other, takeObject, openU32, setLocalObject]
  dsimp only
  by_cases here : other = obj
  · subst here
    rw [update_self]
  · rw [update_of_ne here]

/-- The counters of an object in an allocated block that is taken. -/
theorem takeObject_allocated (allocated : info.objectsPerBlock ≤ tableIndex info obj) :
    (takeObject info obj rest name).inactivePerBlock = update info.inactivePerBlock
          (tableIndex info obj / info.objectsPerBlock)
          (toMaximum (info.inactivePerBlock
            (tableIndex info obj / info.objectsPerBlock) + 0xffff)) ∧
      (takeObject info obj rest name).inactive = toMaximum (info.inactive + 0xffff) := by
  rw [takeObject, activateUnlimited, isInAllocatedBlock]
  split
  next => exact ⟨rfl, rfl⟩
  next static => exact absurd (decide_eq_true allocated) static

theorem takeObject_static (static : ¬info.objectsPerBlock ≤ tableIndex info obj) :
    (takeObject info obj rest name).inactivePerBlock = info.inactivePerBlock ∧
      (takeObject info obj rest name).inactive = info.inactive := by
  rw [takeObject, activateUnlimited, isInAllocatedBlock]
  split
  next allocated => exact absurd (of_decide_eq_true allocated) static
  next => exact ⟨rfl, rfl⟩

/-- A counter that was one more. -/
theorem toMaximum_pred {number : Nat} (small : number + 1 < 2 ^ 16) :
    toMaximum (number + 1 + 0xffff) = number := by
  rw [toMaximum]
  omega

theorem Consistent.takeObject (consistent : Consistent info)
    (chain : info.inactiveChain = obj :: rest) (name : Nat) :
    Consistent (takeObject info obj rest name) := by
  have mem : obj ∈ info.inactiveChain := by
    rw [chain]
    exact List.mem_cons_self
  have found := consistent.chained obj mem
  have distinct := consistent.distinct
  have nodup := consistent.nodup
  have limit := getMaximumIndex_lt info
  have length := consistent.length_le
  rw [chain] at distinct nodup length
  have tallied : ∀ block, tally info.objectsPerBlock (tableIndex info) info.inactiveChain block =
      tally info.objectsPerBlock (tableIndex info) rest block +
        if tableIndex info obj / info.objectsPerBlock = block then 1 else 0 := by
    intro block
    rw [chain, tally_cons]
  refine takeObject_same.consistent consistent ?_ ?_ ?_ ?_ ?_ ?_
  · intro other inside
    rw [takeObject_inactiveChain] at inside
    exact consistent.chained other (by rw [chain]; exact List.mem_cons_of_mem _ inside)
  · rw [takeObject_inactiveChain]
    exact (nodup_cons.mp distinct).2
  · intro index below other entry
    rw [takeObject_localTable] at entry
    by_cases here : index = tableIndex info obj
    · subst here
      rw [update_self] at entry
      cases entry
      exact found
    · rw [update_of_ne here] at entry
      exact consistent.opened index below other entry
  · intro index other present
    rw [takeObject_localTable, takeObject_inactiveChain]
    by_cases here : index = tableIndex info obj
    · subst here
      rw [found] at present
      cases present
      rw [update_self]
      exact iff_of_false (nodup_cons.mp nodup).1 (some_ne_none _)
    · rw [update_of_ne here, ← consistent.either index other present, chain, mem_cons]
      have ne : other ≠ obj := by
        rintro rfl
        exact here (consistent.index_eq present found)
      rw [or_iff_right ne]
  · intro block later below
    have before := consistent.perBlock block later below
    have small := consistent.inactivePerBlock_le later below
    rw [tallied] at before
    rw [takeObject_inactiveChain]
    by_cases allocated : info.objectsPerBlock ≤ tableIndex info obj
    · rw [(takeObject_allocated allocated).1]
      by_cases here : tableIndex info obj / info.objectsPerBlock = block
      · rw [if_pos here] at before
        rw [here, update_self, before, toMaximum_pred (by omega)]
      · rw [if_neg here, Nat.add_zero] at before
        rw [update_of_ne (Ne.symm here), before]
    · have elsewhere : tableIndex info obj / info.objectsPerBlock ≠ block := by
        rw [div_eq_of_lt (Nat.lt_of_not_le allocated)]
        omega
      rw [if_neg elsewhere, Nat.add_zero] at before
      rw [(takeObject_static allocated).1, before]
  · have before := consistent.inactive
    have small := consistent.inactive_le
    rw [chain, List.countP_cons] at before
    simp only [decide_eq_true_iff] at before
    rw [takeObject_inactiveChain]
    by_cases allocated : info.objectsPerBlock ≤ tableIndex info obj
    · rw [if_pos allocated] at before
      rw [(takeObject_allocated allocated).2, before, toMaximum_pred (by omega)]
    · rw [if_neg allocated, Nat.add_zero] at before
      rw [(takeObject_static allocated).2, before]

end Take

/-- An object is closed, appended to the chain and counted. -/
def putObject (information : Information) (object : Nat) : Information :=
  let closed := close information object
  let appended := { closed with inactiveChain := closed.inactiveChain ++ [object] }
  if information.objectsPerBlock ≤ tableIndex information object then
    deactivate appended (tableIndex information object / information.objectsPerBlock)
  else appended

section Put

variable {info : Information} {obj index : Nat}

theorem close_same (info : Information) (obj : Nat) : Same info (close info obj) := by
  refine ⟨rfl, rfl, rfl, rfl, rfl, ?_⟩
  intro other
  rw [close, setLocalObject]
  dsimp only
  by_cases here : other = obj
  · subst here
    rw [update_self]
  · rw [update_of_ne here]

theorem putObject_same : Same info (putObject info obj) := by
  have closed : Same info (close info obj) := close_same info obj
  rw [putObject]
  split
  · exact ⟨rfl, rfl, rfl, rfl, rfl, closed.ids⟩
  · exact ⟨rfl, rfl, rfl, rfl, rfl, closed.ids⟩

theorem putObject_localTable : (putObject info obj).localTable =
    update info.localTable (tableIndex info obj) none := by
  rw [putObject]
  split <;> rfl

theorem putObject_inactiveChain : (putObject info obj).inactiveChain =
    info.inactiveChain ++ [obj] := by
  rw [putObject]
  split <;> rfl

theorem putObject_allocated (allocated : info.objectsPerBlock ≤ tableIndex info obj) :
    (putObject info obj).inactivePerBlock = update info.inactivePerBlock
          (tableIndex info obj / info.objectsPerBlock)
          (toMaximum (info.inactivePerBlock (tableIndex info obj / info.objectsPerBlock) + 1)) ∧
      (putObject info obj).inactive = toMaximum (info.inactive + 1) := by
  rw [putObject, if_pos allocated]
  exact ⟨rfl, rfl⟩

theorem putObject_static (static : ¬info.objectsPerBlock ≤ tableIndex info obj) :
    (putObject info obj).inactivePerBlock = info.inactivePerBlock ∧
      (putObject info obj).inactive = info.inactive := by
  rw [putObject, if_neg static]
  exact ⟨rfl, rfl⟩

theorem Consistent.putObject (consistent : Consistent info) (below : index < getMaximumIndex info)
    (entry : info.localTable index = some obj) :
    Consistent (putObject info obj) := by
  have found := consistent.opened index below obj entry
  have pos := consistent.tableIndex_eq found
  have limit := getMaximumIndex_lt info
  have absent : obj ∉ info.inactiveChain := by
    rw [consistent.either index obj found, entry]
    exact some_ne_none _
  have fresh : tableIndex info obj ∉ info.inactiveChain.map (tableIndex info) := by
    intro listed
    obtain ⟨other, mem, same⟩ := mem_map.mp listed
    have there := consistent.chained other mem
    rw [same, pos, found] at there
    cases there
    exact absent mem
  have nodup : ((info.inactiveChain ++ [obj]).map (tableIndex info)).Nodup := by
    rw [List.map_append, List.map_singleton, List.nodup_append']
    refine ⟨consistent.distinct, List.nodup_singleton _, ?_⟩
    intro other listed here
    rw [mem_singleton.mp here] at listed
    exact fresh listed
  have chained : ∀ other ∈ info.inactiveChain ++ [obj],
      objectAt info (tableIndex info other) = some other := by
    intro other mem
    obtain inside | last := mem_append.mp mem
    · exact consistent.chained other inside
    · rw [mem_singleton.mp last, pos]
      exact found
  have length : info.inactiveChain.length + 1 ≤ getMaximumIndex info := by
    have inside : (info.inactiveChain ++ [obj]).map (tableIndex info) ⊆
        List.range (getMaximumIndex info) := by
      intro other mem
      obtain ⟨listed, present, rfl⟩ := mem_map.mp mem
      exact mem_range.mpr (consistent.lt_of_objectAt (chained listed present))
    have bound := (nodup.subperm inside).length_le
    rwa [length_map, length_range, List.length_append, List.length_singleton] at bound
  refine putObject_same.consistent consistent ?_ ?_ ?_ ?_ ?_ ?_
  · rw [putObject_inactiveChain]
    exact chained
  · rw [putObject_inactiveChain]
    exact nodup
  · intro place inside other present
    rw [putObject_localTable] at present
    by_cases here : place = tableIndex info obj
    · rw [here, update_self] at present
      cases present
    · rw [update_of_ne here] at present
      exact consistent.opened place inside other present
  · intro place other present
    rw [putObject_localTable, putObject_inactiveChain, mem_append, mem_singleton]
    by_cases here : place = tableIndex info obj
    · rw [here, pos, found] at present
      cases present
      rw [here, update_self]
      exact iff_of_true (.inr rfl) rfl
    · have ne : other ≠ obj := by
        rintro rfl
        exact here (consistent.tableIndex_eq present).symm
      rw [update_of_ne here, or_iff_left ne]
      exact consistent.either place other present
  · intro block later inside
    have before := consistent.perBlock block later inside
    have small : info.inactivePerBlock block ≤ info.inactiveChain.length := by
      rw [before, tally]
      exact countP_le_length
    rw [putObject_inactiveChain, tally_append, ← before, tally_cons]
    have nothing : tally info.objectsPerBlock (tableIndex info) [] block = 0 := rfl
    rw [nothing, Nat.zero_add]
    by_cases allocated : info.objectsPerBlock ≤ tableIndex info obj
    · rw [(putObject_allocated allocated).1]
      by_cases here : tableIndex info obj / info.objectsPerBlock = block
      · rw [if_pos here, here, update_self, toMaximum, mod_eq_of_lt (by omega)]
      · rw [if_neg here, update_of_ne (Ne.symm here), Nat.add_zero]
    · have elsewhere : tableIndex info obj / info.objectsPerBlock ≠ block := by
        rw [div_eq_of_lt (Nat.lt_of_not_le allocated)]
        omega
      rw [if_neg elsewhere, (putObject_static allocated).1, Nat.add_zero]
  · have before := consistent.inactive
    have small : info.inactive ≤ info.inactiveChain.length := by
      rw [before]
      exact countP_le_length
    rw [putObject_inactiveChain, List.countP_append, ← before, List.countP_singleton]
    simp only [decide_eq_true_iff]
    by_cases allocated : info.objectsPerBlock ≤ tableIndex info obj
    · rw [if_pos allocated, (putObject_allocated allocated).2, toMaximum, mod_eq_of_lt (by omega)]
    · rw [if_neg allocated, (putObject_static allocated).2, Nat.add_zero]

end Put

/-- Closing and freeing an object counts it and then may release a block. -/
theorem freeUnlimited_close {info : Information} (obj : Nat) (pos : 0 < info.objectsPerBlock) :
    freeUnlimited (close info obj) obj = putObject info obj ∨ freeUnlimited (close info obj) obj =
        shrinkInformation (putObject info obj) := by
  have place : tableIndex { close info obj with
      inactiveChain := (close info obj).inactiveChain ++ [obj] } obj =
      tableIndex info obj :=
    congrFun (close_same info obj).tableIndex_eq obj
  rw [freeUnlimited, putObject]
  dsimp only
  rw [place, isInAllocatedBlock]
  have extends_ : (close info obj).objectsPerBlock = info.objectsPerBlock := rfl
  rw [extends_, if_pos (Nat.ne_of_gt pos)]
  by_cases allocated : info.objectsPerBlock ≤ tableIndex info obj
  · rw [if_pos (decide_eq_true allocated), if_pos allocated]
    split
    · exact .inr rfl
    · exact .inl rfl
  · rw [if_neg (Bool.eq_false_iff.mp (decide_eq_false allocated)), if_neg allocated]
    exact .inl rfl

section Shrink

variable {info : Information} {block : Nat}

/-- The objects of a block by their indexes. -/
theorem Consistent.isInBlock_iff (consistent : Consistent info)
    (below : block < blockCount info) (obj : Nat) :
    isInBlock info block obj = true ↔ tableIndex info obj / info.objectsPerBlock = block := by
  have limit := getMaximumIndex_lt info
  have pos := consistent.positive
  have inside : block * info.objectsPerBlock + info.objectsPerBlock ≤
      getMaximumIndex info := by
    rw [consistent.whole, ← succ_mul]
    exact Nat.mul_le_mul_right _ below
  rw [isInBlock, decide_eq_true_iff, toMaximum, toMaximum, mod_eq_of_lt (by omega),
    mod_eq_of_lt (by omega), Nat.div_eq_iff pos]
  omega

/-- What the release of a block changes. -/
structure Released (information : Information) (block : Nat) (after : Information) : Prop where
  maximumId : after.maximumId = information.maximumId
  objectsPerBlock : after.objectsPerBlock = information.objectsPerBlock
  objectSize : after.objectSize = information.objectSize
  initialObjects : after.initialObjects = information.initialObjects
  objects : after.objects = information.objects
  localTable : after.localTable = information.localTable
  inactiveChain : after.inactiveChain = information.inactiveChain.filter fun object =>
    !isInBlock information block object
  objectBlocks : after.objectBlocks =
    information.objectBlocks.map fun blocks => Function.update blocks block none
  inactivePerBlock : after.inactivePerBlock = Function.update information.inactivePerBlock block 0
  inactive : after.inactive =
    toMaximum (information.inactive + 2 ^ 16 - information.objectsPerBlock)

theorem freeObjectsBlock_released : Released info block (freeObjectsBlock info block) := by
  constructor <;> rfl

namespace Released

variable {after : Information}

section

variable (released : Released info block after)
include released

theorem getMaximumIndex_eq : getMaximumIndex after = getMaximumIndex info := by
  rw [getMaximumIndex, released.maximumId, getMaximumIndex]

theorem apiClassAndNode_eq : apiClassAndNode after = apiClassAndNode info := by
  rw [apiClassAndNode, released.maximumId, apiClassAndNode]

theorem blockCount_eq : blockCount after = blockCount info := by
  rw [blockCount, released.getMaximumIndex_eq, released.objectsPerBlock, blockCount]

theorem tableIndex_eq : tableIndex after = tableIndex info := by
  funext obj
  rw [tableIndex, released.objects, tableIndex]

theorem objectBlock_eq (other : Nat) :
    objectBlock after other = if other = block then none else objectBlock info other := by
  rw [objectBlock, released.objectBlocks, objectBlock]
  cases info.objectBlocks with
  | none => simp
  | some blocks => by_cases here : other = block <;> simp [here]

/-- The released block has no objects. -/
theorem objectAt_eq (allocated : 1 ≤ block) (index : Nat) :
    objectAt after index = if index / info.objectsPerBlock = block then none
      else objectAt info index := by
  rw [objectAt, baseOf, released.objectBlock_eq, released.blockCount_eq, released.objectsPerBlock,
    released.objectSize, released.initialObjects, objectAt, baseOf]
  by_cases here : index / info.objectsPerBlock = block
  · rw [if_pos here, if_pos here, if_neg (by omega), ite_self, map_none]
  · rw [if_neg here, if_neg here]

end

end Released

/-- A block of which all objects are inactive is released. -/
theorem Consistent.released {after : Information} (consistent : Consistent info)
    (released : Released info block after) (allocated : 1 ≤ block)
    (below : block < blockCount info)
    (full : info.inactivePerBlock block = info.objectsPerBlock) : Consistent after := by
  have pos := consistent.positive
  have bases := released.objectAt_eq allocated
  have counted := (consistent.perBlock block allocated below).symm.trans full
  have kept : ∀ obj ∈ info.inactiveChain, (!isInBlock info block obj) = true ↔
      tableIndex info obj / info.objectsPerBlock ≠ block := by
    intro obj _
    rw [Bool.not_eq_true', Bool.eq_false_iff, ne_eq, consistent.isInBlock_iff below]
  have idle : ∀ index, index / info.objectsPerBlock = block → info.localTable index = none := by
    intro index here
    obtain ⟨obj, mem, same⟩ := exists_of_full pos consistent.distinct counted here
    have found := consistent.chained obj mem
    rw [same] at found
    exact (consistent.either index obj found).mp mem
  constructor
  case positive => rw [released.objectsPerBlock]; exact pos
  case size => rw [released.objectSize]; exact consistent.size
  case whole =>
    rw [released.getMaximumIndex_eq, released.blockCount_eq, released.objectsPerBlock]
    exact consistent.whole
  case first => rw [released.blockCount_eq]; exact consistent.first
  case range => rw [released.maximumId]; exact consistent.range
  case tables =>
    rw [released.objectBlocks, released.blockCount_eq]
    exact Option.map_eq_none_iff.trans consistent.tables
  case ids =>
    intro index obj found
    rw [bases] at found
    rw [released.objects, released.apiClassAndNode_eq]
    split at found
    next => cases found
    next => exact consistent.ids index obj found
  case chained =>
    intro obj mem
    rw [released.inactiveChain] at mem
    obtain ⟨inside, stays⟩ := mem_filter.mp mem
    have there := (kept obj inside).mp stays
    rw [bases, released.tableIndex_eq]
    exact (if_neg there).trans (consistent.chained obj inside)
  case distinct =>
    rw [released.inactiveChain, released.tableIndex_eq]
    exact (List.filter_sublist.map _).nodup consistent.distinct
  case opened =>
    intro index inside obj entry
    rw [released.getMaximumIndex_eq] at inside
    rw [released.localTable] at entry
    rw [bases, if_neg]
    · exact consistent.opened index inside obj entry
    · intro here
      have closed := idle index here
      cases closed.symm.trans entry
  case either =>
    intro index obj found
    rw [bases] at found
    rw [released.inactiveChain, released.localTable]
    split at found
    next => cases found
    next there =>
      rw [← consistent.tableIndex_eq found] at there
      refine Iff.trans ?_ (consistent.either index obj found)
      constructor
      · intro mem
        exact (mem_filter.mp mem).1
      · intro mem
        exact mem_filter.mpr ⟨mem, (kept obj mem).mpr there⟩
  case perBlock =>
    intro other later inside
    rw [released.blockCount_eq] at inside
    rw [released.inactivePerBlock, released.objectsPerBlock, released.tableIndex_eq,
      released.inactiveChain]
    by_cases here : other = block
    · subst here
      refine (update_self _ _ _).trans (Eq.symm ?_)
      refine tally_none ?_
      intro obj mem
      obtain ⟨listed, stays⟩ := mem_filter.mp mem
      exact (kept obj listed).mp stays
    · refine (update_of_ne here _ _).trans ?_
      refine (consistent.perBlock other later inside).trans (Eq.symm ?_)
      exact tally_filter kept here
  case inactive =>
    have small := consistent.inactive_le
    have limit := getMaximumIndex_lt info
    have parts := List.countP_eq_countP_filter_add info.inactiveChain
      (fun obj => decide (info.objectsPerBlock ≤ tableIndex info obj))
      (fun obj => !isInBlock info block obj)
    have gone : (info.inactiveChain.filter fun obj =>
        !!isInBlock info block obj).countP
          (fun obj => decide (info.objectsPerBlock ≤ tableIndex info obj)) =
        info.objectsPerBlock := by
      refine Eq.trans ?_ counted
      rw [tally, List.countP_filter]
      refine List.countP_congr ?_
      intro obj _
      rw [Bool.not_not, Bool.and_eq_true, decide_eq_true_iff, decide_eq_true_iff,
        consistent.isInBlock_iff below]
      constructor
      · intro both
        exact both.2
      · intro here
        refine ⟨?_, here⟩
        rw [← Nat.one_le_div_iff pos, here]
        exact allocated
    rw [← consistent.inactive, gone] at parts
    rw [released.inactive, released.inactiveChain, released.objectsPerBlock, released.tableIndex_eq,
      toMaximum]
    omega

/-- Shrinking releases a block of inactive objects, or does nothing. -/
theorem Consistent.shrinkFrom (consistent : Consistent info) (remaining : Nat)
    (allocated : 1 ≤ block) (below : block + remaining ≤ blockCount info) :
    Objects.shrinkFrom info remaining block = info ∨
      ∃ released, 1 ≤ released ∧ released < blockCount info ∧
        info.inactivePerBlock released = info.objectsPerBlock ∧
        Objects.shrinkFrom info remaining block =
          Objects.freeObjectsBlock info released := by
  induction remaining generalizing block with
  | zero => exact .inl rfl
  | succ remaining ih =>
    rw [Objects.shrinkFrom]
    split
    next full => exact .inr ⟨block, allocated, by omega, full, rfl⟩
    next => exact ih (Nat.le_succ_of_le allocated) (by omega)

end Shrink

/-- The tables with the objects that the application has, each with its identifier. -/
structure System where
  information : Information
  active : List (Nat × Nat)

/-- The calls, with the answers of the workspace. -/
inductive Operation where
  | allocateAndOpen (name : Nat) (newBlock : Option Nat) (tables : Option Area)
  | closeAndFree (id object : Nat)

/-- An object that the application gets is open, and only such objects are closed. -/
def step (system : System) : Operation → Option System
  | .allocateAndOpen name newBlock tables =>
    match allocateUnlimited system.information newBlock tables with
    | (some object, information) =>
      some ⟨openU32 information object name,
        ((information.objects object).id, object) :: system.active⟩
    | (none, information) => some ⟨information, system.active⟩
  | .closeAndFree id object =>
    if (id, object) ∈ system.active then
      some ⟨freeUnlimited (close system.information object) object,
        system.active.erase (id, object)⟩
    else none

/-- The workspace gives memory that is not in use. -/
def Permitted (system : System) : Operation → Prop
  | .allocateAndOpen _ newBlock _ => ∀ base ∈ newBlock, Apart system.information base
  | .closeAndFree _ _ => True

/-- One static block, no object is open. -/
structure Initial (system : System) : Prop where
  begins : ∃ classAndNode objectsPerBlock objectSize initialObjects objects,
    classAndNode % 2 ^ 16 = 0 ∧ classAndNode < 2 ^ 32 ∧ 1 ≤ objectsPerBlock ∧
      objectsPerBlock < 2 ^ 16 ∧ 0 < objectSize ∧
      system.information = initializeInformation (defineInformation
        (classAndNode ||| objectsPerBlock) objectsPerBlock objectSize initialObjects objects)
  active : system.active = []

/-- The application has the objects that are in the local table. -/
structure Sound (system : System) : Prop where
  consistent : Consistent system.information
  nodup : system.active.Nodup
  active : ∀ id object, (id, object) ∈ system.active ↔
    ∃ index < getMaximumIndex system.information,
      system.information.localTable index = some object ∧
        id = apiClassAndNode system.information + index + 1

namespace Sound

variable {info : Information} {active : List (Nat × Nat)}

section

variable (sound : Sound ⟨info, active⟩)
include sound

/-- A new block has no open objects. -/
theorem extended {changed : Information} {base : Nat} (ext : Extended info changed block base)
    (apart : Apart info base) :
    Sound ⟨changed, active⟩ := by
  refine ⟨ext.consistent sound.consistent apart, sound.nodup, ?_⟩
  intro id obj
  refine (sound.active id obj).trans ?_
  constructor
  · rintro ⟨index, below, entry, same⟩
    have inside := Nat.lt_of_lt_of_le below ext.more
    refine ⟨index, inside, ?_, ?_⟩
    · rw [ext.localTable index inside, if_pos below]
      exact entry
    · rw [ext.apiClassAndNode]
      exact same
  · rintro ⟨index, inside, entry, same⟩
    rw [ext.localTable index inside] at entry
    split at entry
    next below =>
      refine ⟨index, below, entry, ?_⟩
      rw [ext.apiClassAndNode] at same
      exact same
    next => cases entry

/-- The first inactive object is given to the application. -/
theorem take {obj name : Nat} {rest : List Nat} (chain : info.inactiveChain = obj :: rest) :
    Sound ⟨takeObject info obj rest name, ((info.objects obj).id, obj) :: active⟩ := by
  have consistent : Consistent info := sound.consistent
  have mem : obj ∈ info.inactiveChain := by
    rw [chain]
    exact List.mem_cons_self
  have found := consistent.chained obj mem
  have below := consistent.lt_of_objectAt found
  have closed := (consistent.either _ obj found).mp mem
  have named := consistent.ids _ obj found
  have same : Same info (takeObject info obj rest name) := takeObject_same
  refine ⟨consistent.takeObject chain name, ?_, ?_⟩
  · refine nodup_cons.mpr ⟨?_, sound.nodup⟩
    intro listed
    obtain ⟨index, inside, entry, identifier⟩ := (sound.active _ obj).mp listed
    dsimp only at inside entry identifier
    have here : index = tableIndex info obj := by omega
    rw [here, closed] at entry
    cases entry
  · intro id other
    rw [mem_cons, same.getMaximumIndex_eq, same.apiClassAndNode_eq, takeObject_localTable]
    have known := sound.active id other
    rw [known, named]
    constructor
    · rintro (new | ⟨index, inside, entry, identifier⟩)
      · cases new
        exact ⟨_, below, update_self _ _ _, rfl⟩
      · refine ⟨index, inside, ?_, identifier⟩
        rw [update_of_ne]
        · exact entry
        · rintro rfl
          rw [closed] at entry
          cases entry
    · rintro ⟨index, inside, entry, identifier⟩
      by_cases here : index = tableIndex info obj
      · subst here
        rw [update_self] at entry
        cases entry
        exact .inl (Prod.ext identifier rfl)
      · rw [update_of_ne here] at entry
        exact .inr ⟨index, inside, entry, identifier⟩

/-- An object of the application is put back. -/
theorem put {id obj : Nat} (mem : (id, obj) ∈ active) :
    Sound ⟨putObject info obj, active.erase (id, obj)⟩ := by
  have consistent := sound.consistent
  obtain ⟨index, below, entry, identifier⟩ := (sound.active id obj).mp mem
  dsimp only at consistent below entry identifier
  have found := consistent.opened index below obj entry
  have place := consistent.tableIndex_eq found
  have same : Same info (putObject info obj) := putObject_same
  refine ⟨consistent.putObject below entry, sound.nodup.erase _, ?_⟩
  intro other_id other
  rw [sound.nodup.mem_erase_iff, same.getMaximumIndex_eq, same.apiClassAndNode_eq,
    putObject_localTable, place]
  have known := sound.active other_id other
  rw [known]
  constructor
  · rintro ⟨ne, there, inside, present, named⟩
    refine ⟨there, inside, ?_, named⟩
    rw [update_of_ne]
    · exact present
    · rintro rfl
      rw [entry] at present
      cases present
      exact ne (Prod.ext (named.trans identifier.symm) rfl)
  · rintro ⟨there, inside, present, named⟩
    by_cases here : there = index
    · rw [here, update_self] at present
      cases present
    · rw [update_of_ne here] at present
      refine ⟨?_, there, inside, present, named⟩
      intro both
      have ids := congrArg Prod.fst both
      omega

/-- A released block has no objects of the application. -/
theorem release (allocated : 1 ≤ block) (below : block < blockCount info)
    (full : info.inactivePerBlock block = info.objectsPerBlock) :
    Sound ⟨freeObjectsBlock info block, active⟩ := by
  have released := @freeObjectsBlock_released info block
  refine ⟨sound.consistent.released released allocated below full, sound.nodup, ?_⟩
  intro id obj
  rw [released.getMaximumIndex_eq, released.apiClassAndNode_eq, released.localTable]
  exact sound.active id obj

theorem shrink : Sound ⟨shrinkInformation info, active⟩ := by
  have first : 1 ≤ blockCount info := sound.consistent.first
  obtain same | ⟨released, allocated, below, full, same⟩ :=
    sound.consistent.shrinkFrom (blockCount info - 1) (Nat.le_refl 1) (by dsimp only; omega)
  · rw [shrinkInformation, same]
    exact sound
  · rw [shrinkInformation, same]
    exact sound.release allocated below full

end

end Sound

/-- An allocation takes the first inactive object, also of a new block. -/
theorem allocateUnlimited_cases (info : Information) (newBlock : Option Nat)
    (tables : Option Area) :
    ∃ ready, (ready = info ∨ info.inactiveChain = [] ∧
        ready = (extendInformation info newBlock tables).1) ∧
      ((ready.inactiveChain = [] ∧ allocateUnlimited info newBlock tables = (none, ready)) ∨
        ∃ obj rest, ready.inactiveChain = obj :: rest ∧ allocateUnlimited info newBlock tables =
            (some obj, activateUnlimited { ready with inactiveChain := rest } obj)) := by
  rw [allocateUnlimited, getInactive]
  cases chain : info.inactiveChain with
  | cons obj rest => exact ⟨info, .inl rfl, .inr ⟨obj, rest, chain, rfl⟩⟩
  | nil =>
    refine ⟨_, .inr ⟨rfl, rfl⟩, ?_⟩
    dsimp only
    rw [getInactive]
    cases after : (extendInformation info newBlock tables).1.inactiveChain with
    | nil => exact .inl ⟨rfl, rfl⟩
    | cons obj rest => exact .inr ⟨obj, rest, rfl, rfl⟩

/-- A call keeps the tables. -/
theorem Sound.step {sys next : System} {op : Operation} (sound : Sound sys)
    (permitted : Permitted sys op)
    (taken : Objects.step sys op = some next) : Sound next := by
  obtain ⟨info, active⟩ := sys
  cases op with
  | allocateAndOpen name newBlock tables =>
    obtain ⟨ready, origin, result⟩ := allocateUnlimited_cases info newBlock tables
    have prepared : Sound ⟨ready, active⟩ := by
      obtain rfl | ⟨-, rfl⟩ := origin
      · exact sound
      · obtain failed | ⟨block, base, given, -, ext⟩ :=
          sound.consistent.extendInformation newBlock tables
        · rw [failed]
          exact sound
        · exact sound.extended ext (permitted base given)
    rw [Objects.step] at taken
    obtain ⟨-, failed⟩ | ⟨obj, rest, chain, success⟩ := result
    · rw [failed] at taken
      cases taken
      exact prepared
    · rw [success] at taken
      cases taken
      have identifier : ((activateUnlimited { ready with inactiveChain := rest } obj).objects
          obj).id = (ready.objects obj).id := by
        rw [activateUnlimited]
        split <;> rfl
      rw [identifier]
      exact prepared.take chain
  | closeAndFree id obj =>
    rw [Objects.step] at taken
    split at taken
    next mem =>
      cases taken
      have back := sound.put mem
      have pos : 0 < info.objectsPerBlock := sound.consistent.positive
      obtain same | same := freeUnlimited_close obj pos
      · rw [same]
        exact back
      · rw [same]
        exact back.shrink
    next => cases taken

/-- The static block. -/
theorem Initial.sound {sys : System} (initial : Initial sys) : Sound sys := by
  obtain ⟨⟨classAndNode, objectsPerBlock, objectSize, initialObjects, objects, aligned, range,
    positive, small, size, begins⟩, active⟩ := initial
  obtain ⟨info, list⟩ := sys
  dsimp only at begins active
  subst active
  have split : classAndNode = 2 ^ 16 * (classAndNode / 2 ^ 16) := by omega
  have joined : classAndNode ||| objectsPerBlock = classAndNode + objectsPerBlock := by
    rw [split, Nat.two_pow_add_eq_or_of_lt small]
  have index : getIndex (classAndNode + objectsPerBlock) = objectsPerBlock := by
    rw [getIndex]
    omega
  rw [initializeInformation, joined] at begins
  have maximum : getMaximumIndex (defineInformation (classAndNode + objectsPerBlock)
      objectsPerBlock objectSize initialObjects objects) = objectsPerBlock := index
  have class_eq : apiClassAndNode (defineInformation (classAndNode + objectsPerBlock)
      objectsPerBlock objectSize initialObjects objects) = classAndNode := by
    refine (congrArg (classAndNode + objectsPerBlock - ·) index).trans ?_
    exact Nat.add_sub_cancel _ _
  rw [maximum, class_eq] at begins
  have ids : ∀ place < objectsPerBlock, (info.objects (initialObjects + place * objectSize)).id =
        classAndNode + place + 1 := by
    intro place below
    have named := @appendObjects_id classAndNode
      { defineInformation (classAndNode + objectsPerBlock) objectsPerBlock objectSize
          initialObjects objects with inactiveChain := [] }
      initialObjects 0 objectsPerBlock place size below
    rw [begins]
    refine named.trans ?_
    rw [split, Nat.zero_add, Nat.add_assoc, Nat.two_pow_add_eq_or_of_lt (by omega)]
  rw [appendObjects_eq] at begins
  have perBlock : info.objectsPerBlock = objectsPerBlock := by rw [begins]; rfl
  have sizes : info.objectSize = objectSize := by rw [begins]; rfl
  have static : info.initialObjects = initialObjects := by rw [begins]; rfl
  have maximumId : info.maximumId = classAndNode + objectsPerBlock := by rw [begins]; rfl
  have tables : info.objectBlocks = none := by rw [begins]; rfl
  have localTable : info.localTable = fun _ => none := by rw [begins]; rfl
  have inactive : info.inactive = 0 := by rw [begins]; rfl
  have chain : info.inactiveChain = (List.range objectsPerBlock).map fun place =>
      initialObjects + place * objectSize := by
    rw [begins]
    rfl
  have maximumIndex : getMaximumIndex info = objectsPerBlock := by
    rw [getMaximumIndex, maximumId, index]
  have count : blockCount info = 1 := by
    rw [blockCount, maximumIndex, perBlock, Nat.div_self positive]
  have class_and_node : apiClassAndNode info = classAndNode := by
    rw [apiClassAndNode, maximumId, index, Nat.add_sub_cancel]
  have objectAt_iff : ∀ place obj, objectAt info place = some obj ↔
      place < objectsPerBlock ∧ obj = initialObjects + place * objectSize := by
    intro place obj
    rw [objectAt, baseOf, count, static, perBlock, sizes]
    by_cases below : place < objectsPerBlock
    · rw [div_eq_of_lt below, if_pos rfl, mod_eq_of_lt below, Option.map_some, Option.some_inj]
      constructor
      · intro same
        exact ⟨below, same.symm⟩
      · intro both
        exact both.2.symm
    · have later : 1 ≤ place / objectsPerBlock := by
        rw [Nat.one_le_div_iff positive]
        exact Nat.le_of_not_lt below
      rw [if_neg (by omega), if_neg (by omega), map_none]
      exact iff_of_false (fun none => nomatch none) fun both => below both.1
  have pos : ∀ place < objectsPerBlock,
      tableIndex info (initialObjects + place * objectSize) = place := by
    intro place below
    rw [tableIndex, ids place below, Nat.add_assoc, ← class_and_node,
      getIndex_add info (by omega), Nat.add_sub_cancel]
  have positions : info.inactiveChain.map (tableIndex info) =
      List.range objectsPerBlock := by
    rw [chain, map_map]
    refine (map_congr_left ?_).trans (List.map_id _)
    intro place mem
    exact pos place (mem_range.mp mem)
  have consistent : Consistent info := by
    constructor
    case positive => rw [perBlock]; exact positive
    case size => rw [sizes]; exact size
    case whole => rw [maximumIndex, count, perBlock, Nat.one_mul]
    case first => rw [count]
    case range => rw [maximumId]; omega
    case tables => exact iff_of_true tables count
    case ids =>
      intro place obj found
      obtain ⟨below, rfl⟩ := (objectAt_iff place obj).mp found
      rw [ids place below, class_and_node]
    case chained =>
      intro obj mem
      rw [chain] at mem
      obtain ⟨place, below, rfl⟩ := mem_map.mp mem
      rw [pos place (mem_range.mp below)]
      exact (objectAt_iff place _).mpr ⟨mem_range.mp below, rfl⟩
    case distinct => rw [positions]; exact List.nodup_range
    case opened =>
      intro place _ obj entry
      rw [localTable] at entry
      cases entry
    case either =>
      intro place obj found
      obtain ⟨below, rfl⟩ := (objectAt_iff place obj).mp found
      rw [localTable, chain]
      exact iff_of_true (mem_map.mpr ⟨place, mem_range.mpr below, rfl⟩) rfl
    case perBlock =>
      omega
    case inactive =>
      rw [inactive, perBlock, chain, eq_comm, List.countP_eq_zero]
      intro obj mem
      obtain ⟨place, below, rfl⟩ := mem_map.mp mem
      have inside := mem_range.mp below
      rw [pos place inside, decide_eq_true_iff]
      exact Nat.not_le_of_lt inside
  refine ⟨consistent, List.nodup_nil, ?_⟩
  intro id obj
  rw [localTable]
  exact iff_of_false List.not_mem_nil fun ⟨_, _, entry, _⟩ => nomatch entry

/-- In every run, each index in an allocated block has one object, which is on the inactive
chain once or belongs to the application; the counters count the inactive objects of the
allocated blocks; a block that is not allocated has no object of the application; the
identifiers differ; the application finds its objects under their identifiers and nothing
else is found; and an extension that fails changes nothing. -/
theorem unlimited_tables_consistent (past : List System) (system : System)
    (run : Trace Initial Permitted step past system) :
    (∀ index < getMaximumIndex system.information,
      baseOf system.information (index / system.information.objectsPerBlock) ≠ none →
      ∃ object, objectAt system.information index = some object ∧
        (system.information.objects object).id = apiClassAndNode system.information + index + 1 ∧
        ((system.information.inactiveChain.count object = 1 ∧ ∀ id, (id, object) ∉ system.active) ∨
          (system.information.inactiveChain.count object = 0 ∧
            ((system.information.objects object).id, object) ∈ system.active))) ∧
    (∀ object, object ∈ system.information.inactiveChain ∨ (∃ id, (id, object) ∈ system.active) →
        ∃ index < getMaximumIndex system.information,
          objectAt system.information index = some object) ∧
    (∀ block, 1 ≤ block → block < blockCount system.information →
      system.information.inactivePerBlock block =
        tally system.information.objectsPerBlock (tableIndex system.information)
          system.information.inactiveChain block) ∧
    system.information.inactive = ∑ block ∈ Finset.Ico 1 (blockCount system.information),
      system.information.inactivePerBlock block ∧
    (∀ block, baseOf system.information block = none → ∀ id object, (id, object) ∈ system.active →
        (getIndex id - 1) / system.information.objectsPerBlock ≠ block) ∧
    (∀ first second object other, objectAt system.information first = some object →
      objectAt system.information second = some other →
      (system.information.objects object).id = (system.information.objects other).id →
        object = other ∧ first = second) ∧ (∀ id < 2 ^ 32, ∀ object,
      (get id system.information = some object ↔ (id, object) ∈ system.active) ∧
        (getNoProtection id system.information = some object ↔ (id, object) ∈ system.active)) ∧
    ∀ newBlock tables, (extendInformation system.information newBlock tables).2 = 0 →
      (extendInformation system.information newBlock tables).1 = system.information := by
  have sound : Sound system := by
    refine run.invariant Sound ?_ ?_
    · intro system initial
      exact initial.sound
    · intro system operation next sound permitted taken
      exact sound.step permitted taken
  have consistent := sound.consistent
  refine ⟨?_, ?_, consistent.perBlock, ?_, ?_, ?_, ?_, ?_⟩
  · intro index below allocated
    obtain ⟨base, present⟩ := Option.ne_none_iff_exists'.mp allocated
    have found : objectAt system.information index = some (base +
        index % system.information.objectsPerBlock * system.information.objectSize) := by
      rw [objectAt, present]
      rfl
    refine ⟨_, found, consistent.ids index _ found, ?_⟩
    have either := consistent.either index _ found
    cases entry : system.information.localTable index with
    | none =>
      have listed := either.mpr entry
      refine .inl ⟨List.count_eq_one_of_mem consistent.nodup listed, ?_⟩
      intro id member
      obtain ⟨other, inside, there, -⟩ := (sound.active id _).mp member
      have same := consistent.index_eq found (consistent.opened other inside _ there)
      rw [← same, entry] at there
      cases there
    | some object =>
      have opened := consistent.opened index below object entry
      rw [found] at opened
      cases opened
      refine .inr ⟨?_, ?_⟩
      · refine List.count_eq_zero_of_not_mem fun listed => ?_
        have closed := either.mp listed
        rw [entry] at closed
        cases closed
      · exact (sound.active _ _).mpr ⟨index, below, entry, consistent.ids index _ found⟩
  · rintro object (listed | ⟨id, member⟩)
    · have found := consistent.chained object listed
      exact ⟨_, consistent.lt_of_objectAt found, found⟩
    · obtain ⟨index, below, entry, -⟩ := (sound.active id object).mp member
      exact ⟨index, below, consistent.opened index below object entry⟩
  · have inside : ∀ object ∈ system.information.inactiveChain,
        tableIndex system.information object / system.information.objectsPerBlock <
          blockCount system.information := by
      intro object listed
      have below := consistent.lt_of_objectAt (consistent.chained object listed)
      rw [consistent.whole] at below
      exact (Nat.div_lt_iff_lt_mul consistent.positive).mpr below
    rw [consistent.inactive, ← sum_tally consistent.positive inside]
    refine Finset.sum_congr rfl ?_
    intro block member
    obtain ⟨allocated, below⟩ := Finset.mem_Ico.mp member
    exact (consistent.perBlock block allocated below).symm
  · rintro block released id object member rfl
    obtain ⟨index, below, entry, rfl⟩ := (sound.active id object).mp member
    have limit := getMaximumIndex_lt system.information
    have found := consistent.opened index below object entry
    rw [Nat.add_assoc, getIndex_add system.information (by omega), Nat.add_sub_cancel] at released
    rw [objectAt, released] at found
    cases found
  · intro first second object other one two same
    rw [consistent.ids first object one, consistent.ids second other two] at same
    obtain rfl : first = second := by omega
    rw [one] at two
    exact ⟨Option.some.inj two, rfl⟩
  · intro id small object
    have known := (consistent.getNoProtection_iff small).trans (sound.active id object).symm
    exact ⟨by rw [Consistent.get_eq]; exact known, known⟩
  · intro newBlock tables failed
    obtain same | ⟨block, base, -, result, extension⟩ :=
      consistent.extendInformation newBlock tables
    · rw [same]
    · have first := extension.first
      omega

instance (information : Information) (base : Nat) : Decidable (Apart information base) :=
  inferInstanceAs (Decidable (∀ block < blockCount information,
    ∀ used ∈ baseOf information block, _ ∨ _))

instance (system : System) (operation : Operation) : Decidable (Permitted system operation) :=
  match operation with
  | .allocateAndOpen _ newBlock _ =>
    inferInstanceAs (Decidable (∀ base ∈ newBlock, Apart system.information base))
  | .closeAndFree .. => .isTrue trivial

/-- Blocks of one object, the first one is static. -/
def start : System where
  information := initializeInformation (defineInformation (0x1a010000 ||| 1) 1 64 1000
    fun _ => ⟨0, 0⟩)
  active := []

theorem start_initial : Initial start where
  begins := ⟨0x1a010000, 1, 64, 1000, fun _ => ⟨0, 0⟩, by decide, by decide, by decide, by decide,
    by decide, rfl⟩
  active := rfl

/-- Memory with arbitrary contents. -/
def someArea : Area := ⟨fun _ => some 7, fun _ => some 9, fun _ => 5⟩

/-- Two blocks are allocated, an extension fails, and after the objects of both blocks are
freed the first of them is released. -/
theorem unlimited_tables_consistent_shrunk :
    ∃ (past : List System) (system : System), Trace Initial Permitted step past system ∧
      (objectBlock system.information 1, objectBlock system.information 2,
        system.information.inactive) = (none, some 3000, 1) ∧
      get 0x1a010001 system.information = some 1000 := by
  obtain ⟨past, system, run, seen⟩ := Trace.observe Permitted step start start_initial
    [.allocateAndOpen 1 none none, .allocateAndOpen 2 (some 2000) (some someArea),
      .allocateAndOpen 3 (some 3000) none, .allocateAndOpen 4 (some 3000) (some someArea),
      .closeAndFree 0x1a010003 3000, .closeAndFree 0x1a010002 2000]
    (fun system => ((objectBlock system.information 1, objectBlock system.information 2,
      system.information.inactive), system.active))
    ((none, some 3000, 1), [(0x1a010001, 1000)]) (by decide +kernel) (by decide +kernel)
  obtain ⟨shown, active⟩ := Prod.mk.inj seen
  obtain ⟨-, -, -, -, -, -, found, -⟩ := unlimited_tables_consistent past system run
  refine ⟨past, system, run, shown, ?_⟩
  rw [(found 0x1a010001 (by decide) 1000).1, active]
  exact List.mem_singleton_self _

end Rtems.Objects
