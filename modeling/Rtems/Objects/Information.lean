import Mathlib.Algebra.Order.Ring.Nat

/-!
# Objects information

The objects of a class are in blocks of one size. The first block is static, the others
come from the workspace when no object is inactive and go back when enough objects are
inactive again. The identifier of an object has its place in the local table, which holds
the objects that are open.

A table is a function from its indexes, a pointer to an object is its address. What the
workspace answers is told from outside, also what is in the memory that it gives.
-/

namespace Rtems.Objects

open Function (update)

/-- `Objects_Control`. Its chain node is a member of the list of the chain. -/
structure Control where
  id : Nat
  name : Nat

/-- `Objects_Information` with the memory of the objects. -/
structure Information where
  maximumId : Nat
  localTable : Nat → Option Nat
  inactive : Nat
  objectsPerBlock : Nat
  objectSize : Nat
  inactiveChain : List Nat
  inactivePerBlock : Nat → Nat
  objectBlocks : Option (Nat → Option Nat)
  initialObjects : Nat
  objects : Nat → Control

/-- The memory for the tables that the workspace gives. -/
structure Area where
  objectBlocks : Nat → Option Nat
  localTable : Nat → Option Nat
  inactivePerBlock : Nat → Nat

/-- `OBJECTS_ID_FINAL_INDEX`. -/
def finalIndex : Nat := 0xffff

/-- `_Objects_Get_index`. -/
def getIndex (id : Nat) : Nat := id % 2 ^ 16

/-- A number in an `Objects_Maximum`. -/
def toMaximum (number : Nat) : Nat := number % 2 ^ 16

variable (information : Information)

/-- The index of an object in the tables. -/
def tableIndex (object : Nat) : Nat := getIndex (information.objects object).id - 1

/-- `_Objects_Get_maximum_index`. -/
def getMaximumIndex : Nat := getIndex information.maximumId

/-- The maximum identifier without the index. -/
def apiClassAndNode : Nat := information.maximumId - getIndex information.maximumId

/-- The number of blocks that the tables have a place for. -/
def blockCount : Nat := getMaximumIndex information / information.objectsPerBlock

/-- `object_blocks[ block ]`. -/
def objectBlock (block : Nat) : Option Nat :=
  information.objectBlocks.bind fun blocks => blocks block

/-- Give identifiers to the objects of a block and append them to the inactive chain. -/
def appendObjects (apiClassAndNode : Nat) (information : Information) (object index : Nat) :
    Nat → Information
  | 0 => information
  | count + 1 =>
    appendObjects apiClassAndNode { information with
        objects := update information.objects object
          { information.objects object with id := apiClassAndNode ||| (index + 1) }
        inactiveChain := information.inactiveChain ++ [object] }
      (object + information.objectSize) (index + 1) count

/-- `_Objects_Initialize_information`. -/
def initializeInformation : Information :=
  appendObjects (apiClassAndNode information) { information with inactiveChain := [] }
    information.initialObjects 0 (getMaximumIndex information)

/-- `OBJECTS_INFORMATION_DEFINE` for unlimited objects. -/
def defineInformation (maximumId objectsPerBlock objectSize initialObjects : Nat)
    (objects : Nat → Control) : Information where
  maximumId := maximumId
  localTable _ := none
  inactive := 0
  objectsPerBlock := objectsPerBlock
  objectSize := objectSize
  inactiveChain := []
  inactivePerBlock _ := 0
  objectBlocks := none
  initialObjects := initialObjects
  objects := objects

/-- The search for a place in the block table, with the number of blocks that are left to
look at. The result says whether the tables must be extended. -/
def searchBlock (blocks : Nat → Option Nat) (extendCount : Nat) :
    (remaining block indexBase : Nat) → Bool × Nat × Nat
  | 0, block, indexBase => (true, block, indexBase)
  | remaining + 1, block, indexBase =>
    if blocks block = none then (false, block, indexBase)
    else searchBlock blocks extendCount remaining (block + 1) (indexBase + extendCount)

/-- Where a new block goes. -/
def findBlock : Bool × Nat × Nat :=
  match information.objectBlocks with
  | none => (true, 1, information.objectsPerBlock)
  | some blocks =>
    searchBlock blocks information.objectsPerBlock (blockCount information - 1) 1
      information.objectsPerBlock

/-- The first entries of a table are copied. -/
def copy {α : Type} (count : Nat) (old new : Nat → α) : Nat → α :=
  fun index => if index < count then old index else new index

/-- The tables are copied to a larger area. -/
def growTables (area : Area) (count newMaximum indexBase : Nat) : Information :=
  let extendCount := information.objectsPerBlock
  let oldMaximum := getMaximumIndex information
  let table := copy oldMaximum information.localTable area.localTable
  { information with
    objectBlocks :=
      if extendCount < oldMaximum then
        some (copy count (objectBlock information) area.objectBlocks)
      else some (update area.objectBlocks 0 none)
    inactivePerBlock :=
      if extendCount < oldMaximum then
        copy count information.inactivePerBlock area.inactivePerBlock
      else update area.inactivePerBlock 0 0
    localTable := fun index =>
      if indexBase ≤ index ∧ index < indexBase + extendCount then none else table index
    maximumId := apiClassAndNode information ||| newMaximum }

/-- The new block is put into the tables. -/
def assignBlock (apiClassAndNode : Nat) (information : Information)
    (block newObjectBlock indexBase : Nat) : Information :=
  appendObjects apiClassAndNode { information with
      objectBlocks := information.objectBlocks.map fun blocks =>
        update blocks block (some newObjectBlock)
      inactivePerBlock :=
        update information.inactivePerBlock block information.objectsPerBlock
      inactive := toMaximum (information.inactive + information.objectsPerBlock) }
    newObjectBlock indexBase information.objectsPerBlock

/-- `_Objects_Extend_information`, with what the workspace gives for the block and for the
tables. The result is the block, or zero if it failed. -/
def extendInformation (newBlock : Option Nat) (tables : Option Area) : Information × Nat :=
  let (doExtend, block, indexBase) := findBlock information
  let newMaximum := getMaximumIndex information + information.objectsPerBlock
  if newMaximum > finalIndex then (information, 0)
  else
    match newBlock with
    | none => (information, 0)
    | some newObjectBlock =>
      if doExtend then
        match tables with
        | none => (information, 0)
        | some area =>
          let grown := growTables information area (blockCount information) newMaximum indexBase
          (assignBlock (apiClassAndNode information) grown block newObjectBlock indexBase, block)
      else
        (assignBlock (apiClassAndNode information) information block newObjectBlock indexBase,
          block)

/-- `_Objects_Get_inactive`. -/
def getInactive : Option Nat × Information :=
  match information.inactiveChain with
  | [] => (none, information)
  | object :: rest => (some object, { information with inactiveChain := rest })

/-- `_Objects_Is_in_allocated_block`. -/
def isInAllocatedBlock (index objectsPerBlock : Nat) : Bool := decide (objectsPerBlock ≤ index)

/-- `_Objects_Activate_unlimited`. -/
def activateUnlimited (object : Nat) : Information :=
  let objectsPerBlock := information.objectsPerBlock
  let index := tableIndex information object
  if isInAllocatedBlock index objectsPerBlock then
    let block := index / objectsPerBlock
    { information with
      inactivePerBlock := update information.inactivePerBlock block
        (toMaximum (information.inactivePerBlock block + 0xffff))
      inactive := toMaximum (information.inactive + 0xffff) }
  else information

/-- `_Objects_Allocate_with_extend` with `_Objects_Extend_information`. -/
def allocateUnlimited (newBlock : Option Nat) (tables : Option Area) : Option Nat × Information :=
  let (first, information) := getInactive information
  let (object, information) :=
    match first with
    | some object => (some object, information)
    | none => getInactive (extendInformation information newBlock tables).1
  match object with
  | some object => (some object, activateUnlimited information object)
  | none => (none, information)

/-- `_Objects_Set_local_object`. -/
def setLocalObject (index : Nat) (object : Option Nat) : Information :=
  { information with localTable := update information.localTable (index - 1) object }

/-- `_Objects_Open_u32`. -/
def openU32 (object name : Nat) : Information :=
  setLocalObject { information with
      objects := update information.objects object
        { information.objects object with name := name } }
    (getIndex (information.objects object).id) (some object)

/-- `_Objects_Close`. -/
def close (object : Nat) : Information :=
  let information :=
    setLocalObject information (getIndex (information.objects object).id) none
  { information with
    objects := update information.objects object
      { information.objects object with name := 0 } }

/-- The index of an object is in a block. -/
def isInBlock (block object : Nat) : Bool :=
  let indexBase := toMaximum (block * information.objectsPerBlock)
  let indexEnd := toMaximum (indexBase + information.objectsPerBlock)
  decide (indexBase ≤ tableIndex information object ∧ tableIndex information object < indexEnd)

/-- `_Objects_Free_objects_block`. -/
def freeObjectsBlock (block : Nat) : Information :=
  { information with
    inactiveChain := information.inactiveChain.filter fun object =>
      !isInBlock information block object
    objectBlocks := information.objectBlocks.map fun blocks => update blocks block none
    inactivePerBlock := update information.inactivePerBlock block 0
    inactive := toMaximum (information.inactive + 2 ^ 16 - information.objectsPerBlock) }

/-- The loop of `_Objects_Shrink_information`, with the number of blocks that are left to
look at. -/
def shrinkFrom (information : Information) : (remaining block : Nat) → Information
  | 0, _ => information
  | remaining + 1, block =>
    if information.inactivePerBlock block = information.objectsPerBlock then
      freeObjectsBlock information block
    else shrinkFrom information remaining (block + 1)

/-- `_Objects_Shrink_information`. -/
def shrinkInformation : Information := shrinkFrom information (blockCount information - 1) 1

/-- The counters of `_Objects_Free_unlimited`. -/
def deactivate (block : Nat) : Information :=
  { information with
    inactivePerBlock := update information.inactivePerBlock block
      (toMaximum (information.inactivePerBlock block + 1))
    inactive := toMaximum (information.inactive + 1) }

/-- `_Objects_Free_unlimited`. -/
def freeUnlimited (object : Nat) : Information :=
  let information := { information with
    inactiveChain := information.inactiveChain ++ [object] }
  let objectsPerBlock := information.objectsPerBlock
  if objectsPerBlock ≠ 0 then
    let index := tableIndex information object
    if isInAllocatedBlock index objectsPerBlock then
      let information := deactivate information (index / objectsPerBlock)
      if information.inactive > objectsPerBlock + objectsPerBlock / 2 then
        shrinkInformation information
      else information
    else information
  else information

/-- `_Objects_Get_no_protection`. -/
def getNoProtection (id : Nat) (information : Information) : Option Nat :=
  let maximumId := information.maximumId
  let delta := (maximumId + 2 ^ 32 - id) % 2 ^ 32
  let last := getIndex maximumId
  if delta < last then information.localTable (last - 1 - delta) else none

/-- `_Objects_Get`. -/
def get (id : Nat) (information : Information) : Option Nat :=
  let maximumId := information.maximumId
  let delta := (maximumId + 2 ^ 32 - id) % 2 ^ 32
  let last := getIndex maximumId
  if delta < last then
    match information.localTable (last - 1 - delta) with
    | some object => some object
    | none => none
  else none

end Rtems.Objects
