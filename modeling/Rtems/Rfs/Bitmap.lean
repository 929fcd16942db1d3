import Mathlib.Algebra.Order.Ring.Nat
import Mathlib.Data.List.Range
import Rtems.Library.Transition

/-!
# Bitmaps with a search map

A bitmap is an array of 32-bit elements in a buffer. A bit is set if it is zero. The
search map has one bit for each element, which is set only if the element has no clear
bits, so that the search for a clear bit can pass over whole elements and over 32
elements at once. The search moves the position in the map and the position in the search
map side by side, and the two agree except at some ends of the windows in which the map is
searched.

The map and the search map are memory behind a pointer, so that an index outside of the
array reads and writes what is there. Bits are `int32_t` and stay far below the limit,
since a bitmap is stored in one block.
-/

namespace Rtems.Rfs.Bitmap

open Transition
open Function (update update_of_ne update_self)

/-- `rtems_rfs_bitmap_element`. -/
abbrev Element := BitVec 32

/-- `rtems_rfs_bitmap_map`. -/
abbrev Map := Int → Element

/-- `RTEMS_RFS_BITMAP_ELEMENT_SET`. -/
def elementSet : Element := 0#32

/-- `RTEMS_RFS_BITMAP_ELEMENT_CLEAR`. -/
def elementClear : Element := 0xffffffff#32

/-- The mask with one bit, `1 << offset`. -/
def bitMask (offset : Int) : Element := 1#32 <<< offset.toNat

/-- `rtems_rfs_bitmap_set`. -/
def set (target bits : Element) : Element := target &&& ~~~bits

/-- `rtems_rfs_bitmap_clear`. -/
def clear (target bits : Element) : Element := target ||| bits

/-- `rtems_rfs_bitmap_test`. -/
def test (target : Element) (bit : Int) : Bool := target &&& bitMask bit == 0#32

/-- `rtems_rfs_bitmap_merge`. -/
def merge (bits1 bits2 mask : Element) : Element := (bits1 &&& mask) ||| (bits2 &&& ~~~mask)

/-- `rtems_rfs_bitmap_mask`. -/
def mask (size : Nat) : Element := 0xffffffff#32 >>> (32 - size)

/-- `rtems_rfs_bitmap_mask_section`. -/
def maskSection (start stop : Nat) : Element :=
  if start < stop then mask (stop - start) <<< start else 0#32

/-- `rtems_rfs_bitmap_elements` of a positive number of bits. -/
def elements (bits : Nat) : Nat := (bits - 1) / 32 + 1

/-- `rtems_rfs_bitmap_map_index`. -/
def mapIndex (bit : Int) : Int := bit / 32

/-- `rtems_rfs_bitmap_map_offset`. -/
def mapOffset (bit : Int) : Int := bit % 32

/-- `rtems_rfs_bitmap_control` with the contents of its buffer. -/
structure Control where
  size : Nat
  free : Nat
  map : Map
  searchBits : Map

/-- A bit of the map is set. -/
def Map.isSet (map : Map) (bit : Int) : Bool := test (map (mapIndex bit)) (mapOffset bit)

/-- A loop that stores a value in the first elements. -/
def Map.fill (map : Map) (value : Element) : Nat → Map
  | 0 => map
  | count + 1 => Function.update (map.fill value count) count value

/-- `RTEMS_RFS_BITMAP_SEARCH_WINDOW`. -/
def window : Int := 32 * 64

/-- The direction of a search. -/
inductive Direction where
  | up
  | down
deriving DecidableEq, Repr

/-- The direction as a number. -/
def Direction.sign : Direction → Int
  | up => 1
  | down => -1

/-- The offset at which a search enters an element. -/
def Direction.entry : Direction → Int
  | up => 0
  | down => 31

/-- The running positions of `rtems_rfs_search_map_for_clear_bit`. -/
structure Cursor where
  testBit : Int
  mapIndex : Int
  mapOffset : Int
  searchIndex : Int
  searchOffset : Int

namespace Control

/-- `rtems_rfs_bitmap_map_set`, up to the error codes. -/
def mapSet (control : Control) (bit : Int) : Control :=
  if 0 ≤ bit ∧ bit < control.size then
    let index := mapIndex bit
    let element := control.map index
    let changed := set element (bitMask (mapOffset bit))
    if element = changed then control
    else
      { control with
        free := control.free - 1
        map := Function.update control.map index changed
        searchBits :=
          if changed = elementSet then
            Function.update control.searchBits (mapIndex index)
              (set (control.searchBits (mapIndex index)) (bitMask (mapOffset index)))
          else control.searchBits }
  else control

/-- `rtems_rfs_bitmap_map_clear`, up to the error codes. -/
def mapClear (control : Control) (bit : Int) : Control :=
  if 0 ≤ bit ∧ bit < control.size then
    let index := mapIndex bit
    let element := control.map index
    let changed := clear element (bitMask (mapOffset bit))
    if element = changed then control
    else
      { control with
        free := control.free + 1
        map := Function.update control.map index changed
        searchBits := Function.update control.searchBits (mapIndex index)
          (clear (control.searchBits (mapIndex index)) (bitMask (mapOffset index))) }
  else control

/-- `rtems_rfs_bitmap_map_set_all`. -/
def mapSetAll (control : Control) : Control :=
  let count := elements control.size
  { control with
    free := 0
    map := control.map.fill elementSet count
    searchBits := control.searchBits.fill elementSet (elements count) }

/-- `rtems_rfs_bitmap_map_clear_all`. -/
def mapClearAll (control : Control) : Control :=
  let count := elements control.size
  let lastSearchBit := if count % 32 = 0 then 32 else count % 32
  let words := elements count
  { control with
    free := control.size
    map := control.map.fill elementClear count
    searchBits := Function.update (control.searchBits.fill elementClear (words - 1))
      ((words - 1 : Nat) : Int) (merge elementClear elementSet (mask lastSearchBit)) }

/-- The innermost loop of the search: the bits of one element. The positions at its end and
whether they are those of a clear bit. -/
def searchElement (control : Control) (direction : Direction) (endBit : Int) :
    Nat → Cursor → Cursor × Bool
  | 0, cursor => (cursor, false)
  | rounds + 1, cursor =>
      if 0 ≤ cursor.mapOffset ∧ cursor.mapOffset < 32 then
        if !test (control.map cursor.mapIndex) cursor.mapOffset then (cursor, true)
        else if cursor.testBit = endBit then (cursor, false)
        else
          control.searchElement direction endBit rounds
            { cursor with
              mapOffset := cursor.mapOffset + direction.sign
              testBit := cursor.testBit + direction.sign }
      else (cursor, false)

end Control

/-- The step of the search to the next element. -/
def Cursor.nextElement (cursor : Cursor) (direction : Direction) : Cursor :=
  { cursor with
    mapIndex := cursor.mapIndex + direction.sign
    mapOffset := direction.entry
    testBit := (cursor.mapIndex + direction.sign) * 32 + direction.entry
    searchOffset := cursor.searchOffset + direction.sign }

/-- The step of the search over the elements of a search word without clear bits. -/
def Cursor.skip (cursor : Cursor) (direction : Direction) : Cursor :=
  let aligned := cursor.testBit - cursor.testBit % 32
  match direction with
  | .up =>
      let bitsSkipped := 32 - cursor.searchOffset
      { cursor with
        testBit := aligned + bitsSkipped * 32
        mapOffset := 0
        mapIndex := cursor.mapIndex + bitsSkipped }
  | .down =>
      let bitsSkipped := cursor.searchOffset + 1
      { cursor with
        testBit := aligned - ((bitsSkipped - 1) * 32 + 1)
        mapOffset := 31
        mapIndex := cursor.mapIndex - bitsSkipped }

/-- The step of the search to the next search word. -/
def Cursor.nextWord (cursor : Cursor) (direction : Direction) : Cursor :=
  { cursor with
    searchIndex := cursor.searchIndex + direction.sign
    searchOffset := direction.entry }

/-- The search leaves the loop over a search word when this bit is its next one. -/
def Direction.reached (direction : Direction) (testBit endBit : Int) : Bool :=
  match direction with
  | .up => endBit ≤ testBit
  | .down => testBit ≤ endBit

/-- The search goes on with the next search word when this bit is its next one. -/
def Direction.goesOn (direction : Direction) (testBit endBit : Int) : Bool :=
  match direction with
  | .up => testBit ≤ endBit
  | .down => endBit ≤ testBit

namespace Control

/-- The middle loop of the search: the elements of one search word. -/
def searchWord (control : Control) (direction : Direction) (endBit : Int) :
    Nat → Cursor → Cursor × Bool
  | 0, cursor => (cursor, false)
  | rounds + 1, cursor =>
      if 0 ≤ cursor.searchOffset ∧ cursor.searchOffset < 32 then
        let (cursor, found) :=
          if !test (control.searchBits cursor.searchIndex) cursor.searchOffset then
            control.searchElement direction endBit 32 cursor
          else (cursor, false)
        if found then (cursor, true)
        else
          let cursor := cursor.nextElement direction
          if direction.reached cursor.testBit endBit then (cursor, false)
          else control.searchWord direction endBit rounds cursor
      else (cursor, false)

/-- The outer loop of the search: the search words. -/
def searchWords (control : Control) (direction : Direction) (endBit : Int) :
    Nat → Cursor → Option (Cursor × Bool)
  | 0, _ => none
  | rounds + 1, cursor =>
      let (cursor, found) :=
        if control.searchBits cursor.searchIndex ≠ elementSet then
          control.searchWord direction endBit 32 cursor
        else (cursor.skip direction, false)
      if found then some (cursor, true)
      else
        let cursor := cursor.nextWord direction
        if direction.goesOn cursor.testBit endBit then
          control.searchWords direction endBit rounds cursor
        else some (cursor, false)

end Control

/-- The last bit of the search that starts at a bit. -/
def windowEnd (size : Nat) (direction : Direction) (start : Int) : Int :=
  let endBit := start + window * direction.sign
  if endBit < 0 then 0 else if (size : Int) ≤ endBit then size - 1 else endBit

/-- The positions of a search that starts at a bit. -/
def Cursor.start (bit : Int) : Cursor where
  testBit := bit
  mapIndex := Bitmap.mapIndex bit
  mapOffset := Bitmap.mapOffset bit
  searchIndex := Bitmap.mapIndex (Bitmap.mapIndex bit)
  searchOffset := Bitmap.mapOffset (Bitmap.mapIndex bit)

/-- What a search ends with: a bit, no bit, or an error of the buffer. -/
inductive Outcome where
  | found (bit : Int)
  | nothing
  | error
deriving DecidableEq, Repr

namespace Control

/-- The found bit is set, in the map and, if its element has no other clear bit, in the
search map. -/
def take (control : Control) (cursor : Cursor) : Control :=
  let changed := set (control.map cursor.mapIndex) (bitMask cursor.mapOffset)
  { control with
    free := control.free - 1
    map := Function.update control.map cursor.mapIndex changed
    searchBits :=
      if changed = elementSet then
        Function.update control.searchBits cursor.searchIndex
          (set (control.searchBits cursor.searchIndex) (bitMask cursor.searchOffset))
      else control.searchBits }

/-- `rtems_rfs_search_map_for_clear_bit`, where the map may fail to load. -/
def searchMapForClearBit (control : Control) (loaded : Bool) (bit : Int) (direction : Direction) :
    Option (Control × Outcome) :=
  if loaded then
    match control.searchWords direction (windowEnd control.size direction bit) (window.toNat + 1)
        (.start bit) with
    | none => none
    | some (cursor, true) => some (control.take cursor, .found cursor.testBit)
    | some (_, false) => some (control, .nothing)
  else some (control, .error)

/-- The loop of `rtems_rfs_bitmap_map_alloc`: a window above the seed and one below it in
each round. -/
def allocWindows (control : Control) (loaded : Nat → Direction → Bool) :
    Nat → Nat → Int → Int → Option (Control × Outcome)
  | 0, _, _, _ => none
  | rounds + 1, round, upperSeed, lowerSeed =>
      if (0 ≤ upperSeed ∧ upperSeed < control.size) ∨ (0 ≤ lowerSeed ∧ lowerSeed < control.size) then
        match
          if upperSeed < control.size then
            control.searchMapForClearBit (loaded round .up) upperSeed .up
          else some (control, .nothing) with
        | some (_, .nothing) =>
            match
              if 0 ≤ lowerSeed then
                control.searchMapForClearBit (loaded round .down) lowerSeed .down
              else some (control, .nothing) with
            | some (_, .nothing) =>
                control.allocWindows loaded rounds (round + 1)
                  (if upperSeed < control.size then upperSeed + window else upperSeed)
                  (if 0 ≤ lowerSeed then lowerSeed - window else lowerSeed)
            | result => result
        | result => result
      else some (control, .nothing)

/-- `rtems_rfs_bitmap_map_alloc`. -/
def mapAlloc (control : Control) (loaded : Nat → Direction → Bool) (seed : Int) :
    Option (Control × Outcome) :=
  control.allocWindows loaded (control.size + 1) 0 seed seed

/-- The loop of `rtems_rfs_bitmap_create_search`. The bit of a search word for an element
without clear bits is computed and not stored. -/
def createSearchLoop : Nat → Control → Int → Int → Nat → Nat → Control
  | 0, control, _, _, _, _ => control
  | rounds + 1, control, map, searchMap, size, bit =>
      if size = 0 then control
      else
        let bits :=
          if size < 32 then merge (control.map map) elementSet (maskSection 0 size)
          else control.map map
        let available := if size < 32 then size else 32
        let control :=
          if bits = elementSet then control
          else { control with
            free := control.free + (List.range available).countP fun b : Nat => !test bits b }
        if bit = 31 then
          if 0 < size - available then
            createSearchLoop rounds
              { control with
                searchBits := Function.update control.searchBits (searchMap + 1) elementClear }
              (map + 1) (searchMap + 1) (size - available) 0
          else createSearchLoop rounds control (map + 1) searchMap (size - available) 0
        else createSearchLoop rounds control (map + 1) searchMap (size - available) (bit + 1)

/-- `rtems_rfs_bitmap_create_search`. -/
def createSearch (control : Control) : Control :=
  createSearchLoop control.size
    { control with
      free := 0
      searchBits := Function.update control.searchBits 0 elementClear } 0 0 control.size 0

/-- `rtems_rfs_bitmap_open` with the memory for the search map. No memory is large enough
for the search map of an empty bitmap, since the number of its elements wraps. -/
def reopen (control : Control) (size : Nat) (memory : Map) : Option Control :=
  if size = 0 then none
  else some { control with size, searchBits := memory }.createSearch

end Control

/-- The operations on a bitmap. A call whose map does not load changes nothing, except that
a bitmap that does not open is not used. -/
inductive Operation where
  | reopen (loaded : Bool) (size : Nat) (memory : Map)
  | mapSet (loaded : Bool) (bit : Int)
  | mapClear (loaded : Bool) (bit : Int)
  | mapAlloc (loaded : Nat → Direction → Bool) (seed : Int)
  | mapSetAll (loaded : Bool)
  | mapClearAll (loaded : Bool)

variable (control : Control)

/-- One call. -/
def Control.step : Operation → Option Control
  | .reopen loaded size memory => if loaded then control.reopen size memory else none
  | .mapSet loaded bit => some (if loaded then control.mapSet bit else control)
  | .mapClear loaded bit => some (if loaded then control.mapClear bit else control)
  | .mapAlloc loaded seed => (control.mapAlloc loaded seed).map Prod.fst
  | .mapSetAll loaded => some (if loaded then control.mapSetAll else control)
  | .mapClearAll loaded => some (if loaded then control.mapClearAll else control)

/-- The bitmap was opened. -/
def Initial : Prop :=
  ∃ (before : Control) (size : Nat) (memory : Map), before.reopen size memory = some control

/-- The end of a window from which the positions in the map and in the search map no longer
agree: the first bit of an element, in the direction of the search, that is not the first
one of its search word. -/
def OffPhase (direction : Direction) (start stop : Int) : Prop :=
  start ≠ stop ∧ stop % 32 = direction.entry ∧ stop / 32 % 32 ≠ direction.entry
deriving Decidable

/-- The first bit of the window of a round. -/
def windowStart (seed : Int) (direction : Direction) (round : Nat) : Int :=
  seed + window * direction.sign * round

/-- The first bit is strictly before the second one in the direction of the search. -/
def Direction.before (direction : Direction) (first second : Int) : Prop :=
  match direction with
  | .up => first < second
  | .down => second < first

namespace Control

/-- The window of a round is searched. -/
def Searched (control : Control) (seed : Int) (direction : Direction) (round : Nat) : Prop :=
  0 ≤ windowStart seed direction round ∧ windowStart seed direction round < control.size
deriving Decidable

/-- All bits of a window before its end are set. -/
def FullBefore (control : Control) (direction : Direction) (start : Int) : Prop :=
  ∀ bit : Nat, bit < control.size → ¬direction.before bit start →
    direction.before bit (windowEnd control.size direction start) → control.map.isSet bit

/-- No clear bit is found in a window: there is none, or the clear bit is its end and the
positions do not agree there. -/
def Exhausted (control : Control) (direction : Direction) (start : Int) : Prop :=
  control.FullBefore direction start ∧
    (control.map.isSet (windowEnd control.size direction start) ∨
      OffPhase direction start (windowEnd control.size direction start))

/-- The search from the seed comes to the end of a window where the positions in the map and
in the search map do not agree, and the end is the only clear bit of its element. -/
def Misled (control : Control) (seed : Int) : Prop :=
  ∃ round < control.size, ∃ direction : Direction,
    control.Searched seed direction round ∧
    (∀ earlier < round, ∀ side : Direction, control.Searched seed side earlier →
      control.Exhausted side (windowStart seed side earlier)) ∧
    (direction = .down → control.Searched seed .up round →
      control.Exhausted .up (windowStart seed .up round)) ∧
    control.FullBefore direction (windowStart seed direction round) ∧
    OffPhase direction (windowStart seed direction round)
      (windowEnd control.size direction (windowStart seed direction round)) ∧
    control.map.isSet (windowEnd control.size direction (windowStart seed direction round)) = false ∧
    set (control.map (mapIndex (windowEnd control.size direction (windowStart seed direction round))))
      (bitMask (mapOffset
        (windowEnd control.size direction (windowStart seed direction round)))) = elementSet

end Control

/-- No allocation is misled. -/
def Straight : Operation → Prop
  | .mapAlloc _ seed => ¬control.Misled seed
  | _ => True

theorem test_eq (target : Element) (bit : Int) : test target bit = !target.getLsbD bit.toNat := by
  have single : (target &&& bitMask bit == 0#32) = !target.getLsbD bit.toNat := by
    rw [bitMask, ← BitVec.twoPow_eq, BitVec.and_twoPow]
    cases bitSet : target.getLsbD bit.toNat with
    | false => simp
    | true =>
      have below : bit.toNat < 32 := BitVec.lt_of_getLsbD bitSet
      have nonzero : BitVec.twoPow 32 bit.toNat ≠ 0#32 := by
        intro zero
        have low := congrArg (BitVec.getLsbD · bit.toNat) zero
        simp [below] at low
      simpa using nonzero
  exact single

/-- Elements with the same bits are equal. -/
theorem element_ext {first second : Element}
    (same : ∀ bit : Int, 0 ≤ bit → bit < 32 → test first bit = test second bit) :
    first = second := by
  apply BitVec.eq_of_getLsbD_eq
  intro bit below
  have equal := same bit (by omega) (by omega)
  simpa [test_eq] using equal

/-- An element without clear bits. -/
theorem eq_elementSet_iff (target : Element) :
    target = elementSet ↔ ∀ bit : Int, 0 ≤ bit → bit < 32 → test target bit := by
  constructor
  · rintro rfl bit - -
    simp [test_eq, elementSet]
  · intro full
    apply element_ext
    intro bit low high
    rw [full bit low high]
    simp [test_eq, elementSet]

theorem test_elementClear (bit : Int) (below : bit < 32) : test elementClear bit = false := by
  have small : bit.toNat < 32 := by omega
  have ones : elementClear = BitVec.allOnes 32 := by decide
  rw [test_eq, ones, BitVec.getLsbD_allOnes]
  simp [small]

theorem test_set (target : Element) (off bit : Int) (low : 0 ≤ off) (high : off < 32)
    (nonneg : 0 ≤ bit) : test (set target (bitMask off)) bit = (test target bit || bit == off) := by
  have small : off.toNat < 32 := by omega
  rw [test_eq, test_eq, set, bitMask, ← BitVec.twoPow_eq]
  by_cases same : bit = off
  · subst same
    simp [small]
  · have apart : off.toNat ≠ bit.toNat := by omega
    simp only [BitVec.getLsbD_and, BitVec.getLsbD_not, BitVec.getLsbD_twoPow]
    by_cases inside : bit.toNat < 32
    · simp [same, apart, inside]
    · simp [BitVec.getLsbD_of_ge target bit.toNat (by omega)]

/-- Setting a bit that is set changes nothing. -/
theorem set_of_test {target : Element} {off : Int} (low : 0 ≤ off) (high : off < 32)
    (already : test target off) : set target (bitMask off) = target := by
  apply element_ext
  intro bit nonneg below
  rw [test_set target off bit low high nonneg]
  by_cases same : bit = off
  · simp [same, already]
  · simp [same]

theorem test_clear (target : Element) (off bit : Int) (low : 0 ≤ off) (high : off < 32)
    (nonneg : 0 ≤ bit) :
    test (clear target (bitMask off)) bit = (test target bit && bit != off) := by
  have small : off.toNat < 32 := by omega
  rw [test_eq, test_eq, clear, bitMask, ← BitVec.twoPow_eq]
  by_cases same : bit = off
  · subst same
    simp [small]
  · have apart : off.toNat ≠ bit.toNat := by omega
    simp [same, apart]

theorem getLsbD_mask (size bit : Nat) (small : size ≤ 32) :
    (mask size).getLsbD bit = decide (bit < size) := by
  have ones : (0xffffffff#32 : Element) = BitVec.allOnes 32 := by decide
  rw [mask, ones, BitVec.getLsbD_ushiftRight, BitVec.getLsbD_allOnes]
  exact decide_eq_decide.mpr (by omega)

theorem test_merge (bits1 bits2 mask : Element) (bit : Int) : test (merge bits1 bits2 mask) bit =
      if mask.getLsbD bit.toNat then test bits1 bit else test bits2 bit := by
  simp only [test_eq, merge, BitVec.getLsbD_or, BitVec.getLsbD_and, BitVec.getLsbD_not]
  by_cases inside : bit.toNat < 32
  · cases mask.getLsbD bit.toNat <;> simp [inside]
  · simp [BitVec.getLsbD_of_ge _ bit.toNat (Nat.le_of_not_lt inside)]

namespace Map

/-- A bit is set in the map. -/
def setBit (map : Map) (bit : Int) : Map :=
  Function.update map (mapIndex bit) (set (map (mapIndex bit)) (bitMask (mapOffset bit)))

/-- A bit is cleared in the map. -/
def clearBit (map : Map) (bit : Int) : Map :=
  Function.update map (mapIndex bit) (clear (map (mapIndex bit)) (bitMask (mapOffset bit)))

theorem isSet_setBit (map : Map) (bit other : Int) :
    (map.setBit bit).isSet other = (map.isSet other || other == bit) := by
  unfold isSet setBit mapIndex mapOffset
  by_cases index : other / 32 = bit / 32
  · rw [index, update_self, test_set _ _ _ (by omega) (by omega) (by omega)]
    have off : (other % 32 = bit % 32) ↔ other = bit := by omega
    simp only [beq_eq_decide, off]
  · rw [update_of_ne index]
    have apart : other ≠ bit := by
      rintro rfl
      exact index rfl
    simp [apart]

theorem isSet_clearBit (map : Map) (bit other : Int) :
    (map.clearBit bit).isSet other = (map.isSet other && other != bit) := by
  unfold isSet clearBit mapIndex mapOffset
  by_cases index : other / 32 = bit / 32
  · rw [index, update_self, test_clear _ _ _ (by omega) (by omega) (by omega)]
    have off : (other % 32 = bit % 32) ↔ other = bit := by omega
    simp only [bne, beq_eq_decide, off]
  · rw [update_of_ne index]
    have apart : other ≠ bit := by
      rintro rfl
      exact index rfl
    simp [apart]

theorem fill_apply (map : Map) (value : Element) (count : Nat) (index : Int) :
    map.fill value count index = if 0 ≤ index ∧ index < count then value else map index := by
  induction count with
  | zero =>
    simp [fill]
  | succ count ih =>
    simp only [fill]
    by_cases last : index = count
    · subst last
      simp
    · rw [update_of_ne last, ih]
      have same : (0 ≤ index ∧ index < ((count + 1 : Nat) : Int)) ↔ 0 ≤ index ∧ index < count := by
        omega
      simp only [same]

/-- An element without clear bits has only set bits. -/
theorem isSet_of_element (map : Map) (bit : Int) (full : map (mapIndex bit) = elementSet) :
    map.isSet bit := by
  have inside := (eq_elementSet_iff _).mp full (mapOffset bit)
  unfold mapOffset at inside
  exact inside (by omega) (by omega)

end Map

/-- One bit less satisfies a test. -/
theorem countP_range_drop (large small : Nat → Bool) (bit count : Nat) (below : bit < count)
    (holds : large bit = true) (fails : small bit = false)
    (others : ∀ other, other ≠ bit → large other = small other) :
    (List.range count).countP large = (List.range count).countP small + 1 := by
  induction count with
  | zero => omega
  | succ count ih =>
    rw [List.range_succ, List.countP_append, List.countP_append]
    by_cases last : bit = count
    · subst last
      have same : (List.range bit).countP large = (List.range bit).countP small := by
        apply List.countP_congr
        intro other member
        rw [others other (by have := List.mem_range.mp member; omega)]
      simp [same, holds, fails]
    · simp only [List.countP_singleton, others count (Ne.symm last)]
      omega

namespace Control

/-- The number of clear bits below a bit. -/
def clearBits (control : Control) (bit : Nat) : Nat :=
  (List.range bit).countP fun bit : Nat => !control.map.isSet bit

theorem clearBits_add (ctl : Control) (bit count : Nat) :
    ctl.clearBits (bit + count) = ctl.clearBits bit +
      (List.range count).countP fun off : Nat => !ctl.map.isSet ((bit + off : Nat) : Int) := by
  rw [clearBits, List.range_add, List.countP_append, List.countP_map]
  rfl

/-- The state of the loop of `rtems_rfs_bitmap_create_search` with the remaining size: the
bits before it are counted, and the search words up to the current one are clear. -/
structure Searching (control : Control) (map searchMap : Int) (size bit : Nat) : Prop where
  remains : size ≤ control.size
  aligned : 0 < size → ((control.size - size : Nat) : Int) = 32 * map ∧
    map = 32 * searchMap + bit ∧ bit < 32 ∧ 0 ≤ searchMap
  cleared : ∀ word : Int, 0 ≤ word →
    word * 1024 < ((control.size - size : Nat) : Int) ∨ 0 < size ∧ word = searchMap →
    control.searchBits word = elementClear
  free : control.free = control.clearBits (control.size - size)

/-- One round counts the bits of an element. -/
theorem Searching.count {ctl : Control} {map searchMap : Int} {size bit : Nat}
    (searching : ctl.Searching map searchMap size bit) (more : 0 < size)
    (bits : Element) (available : Nat)
    (bitsEq : bits = if size < 32 then merge (ctl.map map) elementSet (maskSection 0 size)
      else ctl.map map)
    (availableEq : available = if size < 32 then size else 32) :
    (if bits = elementSet then ctl
      else { ctl with
        free := ctl.free + (List.range available).countP fun b : Nat => !test bits b }) =
    { ctl with free := ctl.clearBits (ctl.size - (size - available)) } := by
  obtain ⟨done, -, -, -⟩ := searching.aligned more
  have remains := searching.remains
  have here : (List.range available).countP (fun off : Nat =>
      !ctl.map.isSet ((ctl.size - size + off : Nat) : Int)) =
      (List.range available).countP fun b : Nat => !test bits b := by
    apply List.countP_congr
    intro off member
    have inside := List.mem_range.mp member
    have small : off < 32 := by
      subst availableEq
      split at inside <;> omega
    have place : ctl.map.isSet ((ctl.size - size + off : Nat) : Int) = test (ctl.map map) off := by
      unfold Map.isSet mapIndex mapOffset
      have index : ((ctl.size - size + off : Nat) : Int) / 32 = map := by omega
      have rest : ((ctl.size - size + off : Nat) : Int) % 32 = off := by omega
      rw [index, rest]
    rw [place]
    subst bitsEq
    split
    case isFalse => rfl
    case isTrue short =>
      rw [if_pos short] at availableEq
      rw [test_merge, maskSection, if_pos more, BitVec.shiftLeft_zero, Nat.sub_zero,
        getLsbD_mask _ _ (by omega)]
      simp [show off < size by omega]
  have total : ctl.clearBits (ctl.size - (size - available)) =
      ctl.free + (List.range available).countP fun b : Nat => !test bits b := by
    have split : ctl.size - (size - available) = ctl.size - size + available := by
      subst availableEq
      split <;> omega
    rw [split, clearBits_add, searching.free, here]
  split
  case isTrue full =>
    have none : (List.range available).countP (fun b : Nat => !test bits b) = 0 := by
      simp [full, test_eq, elementSet]
    rw [total, none]
    rfl
  case isFalse => rw [total]

/-- The next element, with the next search word at the end of a search word. -/
theorem Searching.advance {ctl : Control} {map searchMap : Int} {size bit available : Nat}
    (searching : ctl.Searching map searchMap size bit) (more : 0 < size)
    (availableEq : available = if size < 32 then size else 32) (next : Int) (nextBit : Nat)
    (searchBits : Map)
    (moved : 0 < size - available → map + 1 = 32 * next + nextBit ∧ nextBit < 32 ∧ 0 ≤ next ∧
      searchBits next = elementClear)
    (kept : ∀ word, ctl.searchBits word = elementClear → searchBits word = elementClear) :
    Searching { ctl with
      free := ctl.clearBits (ctl.size - (size - available))
      searchBits } (map + 1) next (size - available) nextBit := by
  obtain ⟨done, place, small, low⟩ := searching.aligned more
  have remains := searching.remains
  constructor
  · simp only
    omega
  · intro still
    obtain ⟨aligned, inside, nonneg, -⟩ := moved still
    refine ⟨?_, aligned, inside, nonneg⟩
    simp only
    split at availableEq <;> omega
  · rintro word nonneg (before | ⟨still, rfl⟩)
    · apply kept
      apply searching.cleared word nonneg
      simp only at before
      by_cases old : word * 1024 < ((ctl.size - size : Nat) : Int)
      · exact .inl old
      · refine .inr ⟨more, ?_⟩
        split at availableEq <;> omega
    · exact (moved still).2.2.2
  · rfl

/-- The loop of `rtems_rfs_bitmap_create_search` comes to its end. -/
theorem createSearchLoop_spec (rounds : Nat) (ctl : Control) (map searchMap : Int)
    (size bit : Nat) (searching : ctl.Searching map searchMap size bit) (enough : size ≤ rounds) :
    ∃ res, createSearchLoop rounds ctl map searchMap size bit = res ∧
      res.size = ctl.size ∧ res.map = ctl.map ∧
      ∃ lastMap lastSearchMap lastBit, res.Searching lastMap lastSearchMap 0 lastBit := by
  induction rounds generalizing ctl map searchMap size bit with
  | zero =>
    obtain rfl : size = 0 := by omega
    exact ⟨ctl, rfl, rfl, rfl, map, searchMap, bit, searching⟩
  | succ rounds ih =>
    rw [createSearchLoop]
    split
    case isTrue ended =>
      subst ended
      exact ⟨ctl, rfl, rfl, rfl, map, searchMap, bit, searching⟩
    case isFalse open_ =>
      have more : 0 < size := by omega
      obtain ⟨-, place, small, low⟩ := searching.aligned more
      simp only
      rw [searching.count more _ _ rfl rfl]
      generalize availableEq : (if size < 32 then size else 32) = available
      have fewer : size - available ≤ rounds := by split at availableEq <;> omega
      -- the new search word is cleared before the search map is moved to it
      split
      case isFalse inner =>
        exact ih _ _ _ _ _
          (searching.advance more availableEq.symm searchMap (bit + 1) ctl.searchBits
            (fun _ => ⟨by omega, by omega, low, searching.cleared _ low (.inr ⟨more, rfl⟩)⟩)
            fun _ same => same) fewer
      case isTrue outer =>
        split
        case isTrue still =>
          refine ih _ _ _ _ _ (searching.advance more availableEq.symm (searchMap + 1) 0
              (update ctl.searchBits (searchMap + 1) elementClear)
              (fun _ => ⟨by omega, by omega, by omega, update_self ..⟩) ?_) fewer
          intro word same
          by_cases new : word = searchMap + 1
          · rw [new, update_self]
          · rw [update_of_ne new, same]
        case isFalse ended =>
          exact ih _ _ _ _ _ (searching.advance more availableEq.symm searchMap 0 ctl.searchBits
              (fun still => absurd still ended) fun _ same => same) fewer

/-- The search map does not hide clear bits, and the number of clear bits is known. -/
structure Sound (control : Control) : Prop where
  positive : 0 < control.size
  hides : ∀ bit : Int, 0 ≤ bit → bit < control.size →
    control.searchBits.isSet (mapIndex bit) → control.map.isSet bit
  free : control.free = (List.range control.size).countP fun bit : Nat => !control.map.isSet bit

namespace Sound

variable {ctl : Control}

/-- A clear bit of the map is set, and the search map is changed or not. -/
theorem setBit (sound : ctl.Sound) (bit : Int) (low : 0 ≤ bit) (high : bit < ctl.size)
    (cleared : ctl.map.isSet bit = false) (searchBits : Map)
    (kept : ∀ element, searchBits.isSet element → ctl.searchBits.isSet element ∨
      element = mapIndex bit ∧ (ctl.map.setBit bit) element = elementSet) :
    Sound { ctl with
      free := ctl.free - 1
      map := ctl.map.setBit bit
      searchBits } := by
  constructor
  · exact sound.positive
  · intro other nonneg below marked
    rcases kept _ marked with old | ⟨own, full⟩
    · rw [Map.isSet_setBit, sound.hides other nonneg below old]
      rfl
    · exact Map.isSet_of_element _ _ full
  · have one := countP_range_drop (fun bit => !ctl.map.isSet bit)
      (fun other => !(ctl.map.setBit bit).isSet other) bit.toNat ctl.size (by omega)
      (by simp [Int.toNat_of_nonneg low, cleared])
      (by simp [Int.toNat_of_nonneg low, Map.isSet_setBit])
      (by
        intro other apart
        have away : (other : Int) ≠ bit := by omega
        simp [Map.isSet_setBit, away])
    have free := sound.free
    simp only
    omega

/-- The bit of an element without clear bits is set in the search map. -/
theorem mark (bit : Int) (searchBits : Map) (marks : searchBits = ctl.searchBits ∨ searchBits =
      ctl.searchBits.setBit (mapIndex bit) ∧ (ctl.map.setBit bit) (mapIndex bit) =
      elementSet) (element : Int) (marked : searchBits.isSet element) :
    ctl.searchBits.isSet element ∨
      element = mapIndex bit ∧ (ctl.map.setBit bit) element = elementSet := by
  rcases marks with rfl | ⟨rfl, full⟩
  · exact .inl marked
  · rw [Map.isSet_setBit, Bool.or_eq_true, beq_iff_eq] at marked
    rcases marked with old | rfl
    · exact .inl old
    · exact .inr ⟨rfl, full⟩

section

variable (sound : ctl.Sound)
include sound

theorem mapSet (bit : Int) : (ctl.mapSet bit).Sound := by
  unfold Control.mapSet
  split
  case isFalse => exact sound
  case isTrue inside =>
    simp only
    split
    case isTrue => exact sound
    case isFalse changed =>
      have cleared : ctl.map.isSet bit = false := by
        by_contra already
        rw [Bool.not_eq_false] at already
        exact changed (set_of_test (by unfold mapOffset; omega) (by unfold mapOffset; omega)
          already).symm
      apply sound.setBit bit inside.1 inside.2 cleared
      apply mark
      split
      case isFalse => exact .inl rfl
      case isTrue full =>
        refine .inr ⟨rfl, ?_⟩
        rw [Map.setBit, update_self]
        exact full

/-- A set bit of the map is cleared with the bit of its element in the search map. -/
theorem clearBit (bit : Int) (low : 0 ≤ bit) (high : bit < ctl.size) (filled : ctl.map.isSet bit) :
    Sound { ctl with
      free := ctl.free + 1
      map := ctl.map.clearBit bit
      searchBits := ctl.searchBits.clearBit (mapIndex bit) } := by
  constructor
  · exact sound.positive
  · intro other nonneg below marked
    rw [Map.isSet_clearBit, Bool.and_eq_true, bne_iff_ne] at marked
    have apart : other ≠ bit := by
      rintro rfl
      exact marked.2 rfl
    rw [Map.isSet_clearBit, sound.hides other nonneg below marked.1]
    simp [apart]
  · have one := countP_range_drop (fun other => !(ctl.map.clearBit bit).isSet other)
      (fun bit => !ctl.map.isSet bit) bit.toNat ctl.size (by omega)
      (by simp [Int.toNat_of_nonneg low, Map.isSet_clearBit])
      (by simp [Int.toNat_of_nonneg low, filled])
      (by
        intro other apart
        have away : (other : Int) ≠ bit := by omega
        simp [Map.isSet_clearBit, away])
    have free := sound.free
    simp only
    omega

theorem mapClear (bit : Int) : (ctl.mapClear bit).Sound := by
  unfold Control.mapClear
  split
  case isFalse => exact sound
  case isTrue inside =>
    simp only
    split
    case isTrue => exact sound
    case isFalse changed =>
      apply sound.clearBit bit inside.1 inside.2
      by_contra already
      apply changed
      apply element_ext
      intro other nonneg below
      rw [test_clear _ _ _ (by unfold mapOffset; omega) (by unfold mapOffset; omega) nonneg]
      by_cases same : other = mapOffset bit
      · subst same
        rw [Map.isSet, Bool.not_eq_true] at already
        simp [already]
      · simp [same]

theorem mapSetAll : ctl.mapSetAll.Sound := by
  have full : ∀ bit : Int, 0 ≤ bit → bit < ctl.size →
      (ctl.map.fill elementSet (elements ctl.size)).isSet bit := by
    intro bit low high
    apply Map.isSet_of_element
    rw [Map.fill_apply, if_pos (by unfold mapIndex elements; omega)]
  constructor
  · exact sound.positive
  · intro bit low high _
    exact full bit low high
  · have none : ∀ bit ∈ List.range ctl.size,
        ¬(!(ctl.map.fill elementSet (elements ctl.size)).isSet (bit : Int)) = true := by
      intro bit member
      have below := List.mem_range.mp member
      simp [full bit (by omega) (by exact_mod_cast below)]
    exact (List.countP_eq_zero.mpr none).symm

theorem mapClearAll : ctl.mapClearAll.Sound := by
  have empty : ∀ bit : Int, 0 ≤ bit → bit < ctl.size →
      (ctl.map.fill elementClear (elements ctl.size)).isSet bit = false := by
    intro bit low high
    rw [Map.isSet, Map.fill_apply, if_pos (by unfold mapIndex elements; omega)]
    exact test_elementClear _ (by unfold mapOffset; omega)
  constructor
  · exact sound.positive
  · intro bit low high marked
    have below : bit < ctl.size := high
    unfold Control.mapClearAll Map.isSet mapIndex mapOffset at marked
    simp only at marked
    by_cases last : bit / 32 / 32 = ((elements (elements ctl.size) - 1 : Nat) : Int)
    · rw [last, update_self, test_merge, getLsbD_mask _ _ (by split <;> omega)] at marked
      rw [if_pos (by unfold elements at *; split <;> simp only [decide_eq_true_eq] <;> omega),
        test_elementClear _ (by omega)] at marked
      cases marked
    · rw [update_of_ne last, Map.fill_apply,
        if_pos (by unfold elements at *; omega), test_elementClear _ (by omega)] at marked
      cases marked
  · have all : ∀ bit ∈ List.range ctl.size,
        (!(ctl.map.fill elementClear (elements ctl.size)).isSet (bit : Int)) = true := by
      intro bit member
      have below := List.mem_range.mp member
      simp [empty bit (by omega) (by exact_mod_cast below)]
    have count := List.countP_eq_length.mpr all
    rw [List.length_range] at count
    exact count.symm

end

/-- An opened bitmap. -/
theorem reopen {before : Control} (size : Nat) (memory : Map)
    (opened : before.reopen size memory = some ctl) : ctl.Sound := by
  unfold Control.reopen at opened
  split at opened
  case isTrue => cases opened
  case isFalse positive =>
    cases opened
    have begins : Searching { before with
          size
          free := 0
          searchBits := update memory 0 elementClear } 0 0 size 0 := by
      constructor
      · exact Nat.le_refl size
      · intro
        simp
      · rintro word nonneg (early | ⟨-, rfl⟩)
        · simp only [Nat.sub_self] at early
          omega
        · simp only [update_self]
      · simp [clearBits]
    obtain ⟨res, done, sameSize, -, _, _, _, ended⟩ :=
      createSearchLoop_spec size _ _ _ _ _ begins (Nat.le_refl size)
    rw [createSearch, done]
    constructor
    · rw [sameSize]
      exact Nat.pos_of_ne_zero positive
    · intro bit low high marked
      rw [Map.isSet, ended.cleared _ (by unfold mapIndex; omega) (by unfold mapIndex; omega),
        test_elementClear _ (by unfold mapOffset; omega)] at marked
      cases marked
    · exact ended.free

end Sound
end Control
/-- The bit and the position in the map agree. -/
structure Cursor.Within (cursor : Cursor) : Prop where
  low : 0 ≤ cursor.mapOffset
  high : cursor.mapOffset < 32
  place : cursor.testBit = 32 * cursor.mapIndex + cursor.mapOffset

/-- The positions in the map and in the search map agree. -/
def Cursor.InPhase (cursor : Cursor) : Prop :=
  cursor.mapIndex = 32 * cursor.searchIndex + cursor.searchOffset

/-- The bits from a start up to a limit are set, without those behind the end. -/
def Control.Passed (direction : Direction) (start endBit limit : Int) : Prop :=
  ∀ bit : Int, 0 ≤ bit → bit < control.size → ¬direction.before bit start →
    ¬direction.before endBit bit → direction.before bit limit → control.map.isSet bit

/-- A search from a start has come to a bit. The positions agree, except that the end of the
search may have been reached off phase. -/
structure Control.Walk (control : Control) (direction : Direction) (start endBit : Int)
    (cursor : Cursor) : Prop where
  endLow : 0 ≤ endBit
  endHigh : endBit < control.size
  within : cursor.Within
  searchLow : 0 ≤ cursor.searchOffset
  searchHigh : cursor.searchOffset < 32
  inside : ¬direction.before endBit cursor.testBit
  ahead : ¬direction.before cursor.testBit start
  passed : control.Passed direction start endBit cursor.testBit
  phase : cursor.InPhase ∨ cursor.testBit = endBit ∧ OffPhase direction start endBit

/-- A search has found nothing: all bits are set, except for an end off phase. -/
def Control.Stopped (direction : Direction) (start endBit : Int) : Prop :=
  control.Passed direction start endBit endBit ∧
    (control.map.isSet endBit ∨ OffPhase direction start endBit)

/-- The first bit of the next element. -/
def Cursor.nextBit (cursor : Cursor) (direction : Direction) : Int :=
  32 * (cursor.mapIndex + direction.sign) + direction.entry

/-- The rounds that are left in a loop over 32 offsets. -/
def Direction.left (direction : Direction) (offset : Int) : Int :=
  match direction with
  | .up => 32 - offset
  | .down => offset + 1

theorem Direction.reached_iff (dir : Direction) (testBit endBit : Int) :
    dir.reached testBit endBit = true ↔ ¬dir.before testBit endBit := by
  cases dir <;> simp [Direction.reached, Direction.before]

theorem Direction.goesOn_iff (dir : Direction) (testBit endBit : Int) :
    dir.goesOn testBit endBit = true ↔ ¬dir.before endBit testBit := by
  cases dir <;> simp [Direction.goesOn, Direction.before]

theorem Cursor.nextWord_testBit (cursor : Cursor) (dir : Direction) :
    (cursor.nextWord dir).testBit = cursor.testBit := rfl

namespace Cursor.Within

variable {cursor : Cursor}

theorem isSet (within : cursor.Within) (map : Map) :
    map.isSet cursor.testBit = test (map cursor.mapIndex) cursor.mapOffset := by
  obtain ⟨low, high, place⟩ := within
  have index : Bitmap.mapIndex cursor.testBit = cursor.mapIndex := by
    unfold Bitmap.mapIndex
    omega
  have off : Bitmap.mapOffset cursor.testBit = cursor.mapOffset := by
    unfold Bitmap.mapOffset
    omega
  rw [Map.isSet, index, off]

end Cursor.Within

namespace Control.Walk

variable {ctl : Control} {dir : Direction} {start endBit : Int} {cursor : Cursor}

section

variable (walk : ctl.Walk dir start endBit cursor)
  (filled : ctl.map.isSet cursor.testBit)
include walk filled

/-- A set bit is passed. -/
theorem pass : ctl.Passed dir start endBit (cursor.testBit + dir.sign) := by
  intro bit low high behind before upTo
  by_cases here : bit = cursor.testBit
  · exact here ▸ filled
  · apply walk.passed bit low high behind before
    cases dir <;> simp only [Direction.before, Direction.sign] at upTo ⊢ <;> omega

theorem nextBit (more : cursor.testBit ≠ endBit)
    (low : 0 ≤ cursor.mapOffset + dir.sign) (high : cursor.mapOffset + dir.sign < 32) :
    ctl.Walk dir start endBit { cursor with
        mapOffset := cursor.mapOffset + dir.sign
        testBit := cursor.testBit + dir.sign } := by
  have inside := walk.inside
  have ahead := walk.ahead
  constructor
  · exact walk.endLow
  · exact walk.endHigh
  · refine ⟨low, high, ?_⟩
    have place := walk.within.place
    simp only
    omega
  · exact walk.searchLow
  · exact walk.searchHigh
  · cases dir <;> simp only [Direction.before, Direction.sign] at inside ⊢ <;> omega
  · cases dir <;> simp only [Direction.before, Direction.sign] at ahead ⊢ <;> omega
  · exact walk.pass filled
  · rcases walk.phase with phase | ⟨ended, -⟩
    · exact .inl phase
    · exact absurd ended more

end

/-- The loop over the bits of an element finds a clear bit or passes the element. -/
theorem searchElement (rounds : Nat) (walk : ctl.Walk dir start endBit cursor)
    (enough : dir.left cursor.mapOffset ≤ rounds) :
    ∃ last found, ctl.searchElement dir endBit rounds cursor = (last, found) ∧
      last.mapIndex = cursor.mapIndex ∧ last.searchIndex = cursor.searchIndex ∧
      last.searchOffset = cursor.searchOffset ∧
      if found then ctl.Walk dir start endBit last ∧ ctl.map.isSet last.testBit = false
      else ctl.Passed dir start endBit (cursor.nextBit dir) := by
  induction rounds generalizing cursor with
  | zero =>
    have low := walk.within.low
    have high := walk.within.high
    cases dir <;> simp only [Direction.left] at enough <;> omega
  | succ rounds ih =>
    obtain ⟨low, high, place⟩ := walk.within
    rw [Control.searchElement, if_pos ⟨low, high⟩, ← walk.within.isSet]
    cases filled : ctl.map.isSet cursor.testBit with
    | false =>
      refine ⟨cursor, true, by simp, rfl, rfl, rfl, ?_⟩
      exact ⟨walk, filled⟩
    | true =>
      simp only [Bool.not_true, Bool.false_eq_true, if_false]
      split
      case isTrue ended =>
        refine ⟨cursor, false, rfl, rfl, rfl, rfl, ?_⟩
        intro bit nonneg below behind before _
        apply walk.pass filled bit nonneg below behind before
        cases dir <;> simp only [Direction.before, Direction.sign] at before ⊢ <;> omega
      case isFalse more =>
        by_cases inner : 0 ≤ cursor.mapOffset + dir.sign ∧ cursor.mapOffset + dir.sign < 32
        · have further := walk.nextBit filled more inner.1 inner.2
          apply ih further
          cases dir <;> simp only [Direction.left, Direction.sign] at enough ⊢ <;> omega
        · refine ⟨{ cursor with
              mapOffset := cursor.mapOffset + dir.sign
              testBit := cursor.testBit + dir.sign }, false, ?_, rfl, rfl, rfl, ?_⟩
          · cases rounds with
            | zero => rfl
            | succ rounds => rw [Control.searchElement, if_neg inner]
          · have same : cursor.testBit + dir.sign = cursor.nextBit dir := by
              unfold Cursor.nextBit
              cases dir <;> simp only [Direction.sign, Direction.entry] at inner ⊢ <;> omega
            rw [← same]
            exact walk.pass filled

section

variable (walk : ctl.Walk dir start endBit cursor)
include walk

/-- The elements of a search word whose search bit is set are passed. -/
theorem marked (sound : ctl.Sound)
    (limit : Int) (full : ∀ element, ctl.searchBits.isSet element ∨ dir.before element
      cursor.mapIndex ∨ ¬dir.before (32 * element + dir.entry) limit)
    (aligned : limit % 32 = dir.entry) : ctl.Passed dir start endBit limit := by
  intro bit low high behind before upTo
  by_cases passed : dir.before bit cursor.testBit
  · exact walk.passed bit low high behind before passed
  · apply sound.hides bit low high
    obtain ⟨offsetLow, offsetHigh, place⟩ := walk.within
    rcases full (bit / 32) with isSet | early | late
    · exact isSet
    · cases dir <;> simp only [Direction.before] at early passed <;> omega
    · cases dir <;> simp only [Direction.before, Direction.entry] at late upTo aligned <;> omega

/-- The element of a search bit is passed, or the search was off phase at its end. -/
theorem skipElement (sound : ctl.Sound) (phase : cursor.InPhase)
    (isSet : test (ctl.searchBits cursor.searchIndex) cursor.searchOffset = true) :
    ctl.Passed dir start endBit (cursor.nextBit dir) := by
  have low := walk.searchLow
  have high := walk.searchHigh
  unfold Cursor.InPhase at phase
  have index : mapIndex cursor.mapIndex = cursor.searchIndex := by
    unfold Bitmap.mapIndex
    omega
  have off : mapOffset cursor.mapIndex = cursor.searchOffset := by
    unfold Bitmap.mapOffset
    omega
  apply walk.marked sound
  · intro element
    by_cases own : element = cursor.mapIndex
    · left
      rw [own, Map.isSet, index, off]
      exact isSet
    · right
      unfold Cursor.nextBit
      cases dir <;> simp only [Direction.before, Direction.entry, Direction.sign] <;> omega
  · unfold Cursor.nextBit
    cases dir <;> simp only [Direction.entry, Direction.sign] <;> omega

/-- The search is at the first bit of an element and of a search word. -/
theorem enter (next : Cursor) (further : dir.before cursor.testBit next.testBit)
    (inside : ¬dir.before endBit next.testBit)
    (place : next.testBit = 32 * next.mapIndex + next.mapOffset)
    (low : 0 ≤ next.mapOffset ∧ next.mapOffset < 32)
    (search : 0 ≤ next.searchOffset ∧ next.searchOffset < 32)
    (passed : ctl.Passed dir start endBit next.testBit)
    (phase : next.InPhase ∨ next.testBit = endBit ∧ OffPhase dir start endBit) :
    ctl.Walk dir start endBit next := by
  have ahead := walk.ahead
  constructor
  · exact walk.endLow
  · exact walk.endHigh
  · exact ⟨low.1, low.2, place⟩
  · exact search.1
  · exact search.2
  · exact inside
  · cases dir <;> simp only [Direction.before] at ahead further ⊢ <;> omega
  · exact passed
  · exact phase

/-- A search that has passed its end stops. -/
theorem stop (limit : Int) (behind : dir.before endBit limit) (passed : ctl.Passed
      dir start endBit limit ∨ cursor.testBit = endBit ∧ OffPhase dir start endBit) :
    ctl.Stopped dir start endBit := by
  have inside := walk.inside
  have ahead := walk.ahead
  rcases passed with passed | ⟨ended, off⟩
  · constructor
    · intro bit low high after before upTo
      apply passed bit low high after before
      cases dir <;> simp only [Direction.before] at behind upTo ⊢ <;> omega
    · left
      apply passed endBit walk.endLow walk.endHigh
      · cases dir <;> simp only [Direction.before] at inside ahead ⊢ <;> omega
      · cases dir <;> simp only [Direction.before] <;> omega
      · exact behind
  · constructor
    · exact ended ▸ walk.passed
    · exact .inr off

theorem nextElement (passed : ctl.Passed dir start endBit (cursor.nextBit dir) ∨
      cursor.testBit = endBit ∧ OffPhase dir start endBit) :
    dir.before cursor.testBit (cursor.nextElement dir).testBit ∧
    (dir.reached (cursor.nextElement dir).testBit endBit = false →
      0 ≤ cursor.searchOffset + dir.sign → cursor.searchOffset + dir.sign < 32 →
      ctl.Walk dir start endBit (cursor.nextElement dir)) ∧
    (dir.reached (cursor.nextElement dir).testBit endBit = true ∨
        ¬(0 ≤ cursor.searchOffset + dir.sign ∧ cursor.searchOffset + dir.sign < 32) →
      if dir.goesOn (cursor.nextElement dir).testBit endBit then
        ctl.Walk dir start endBit ((cursor.nextElement dir).nextWord dir)
      else ctl.Stopped dir start endBit) := by
  obtain ⟨low, high, place⟩ := walk.within
  have searchLow := walk.searchLow
  have searchHigh := walk.searchHigh
  have ahead := walk.ahead
  have further : dir.before cursor.testBit (cursor.nextElement dir).testBit := by
    cases dir <;>
      simp only [Direction.before, Cursor.nextElement, Direction.sign, Direction.entry] <;> omega
  have same : (cursor.nextElement dir).testBit = cursor.nextBit dir := by
    simp only [Cursor.nextElement, Cursor.nextBit, Int.mul_comm]
  have entry : 0 ≤ dir.entry ∧ dir.entry < 32 := by
    cases dir <;> simp [Direction.entry]
  -- off phase, the search is at its end, so the next element is behind it
  have onPhase : ¬dir.before endBit (cursor.nextElement dir).testBit →
      cursor.InPhase ∧ ctl.Passed dir start endBit (cursor.nextBit dir) := by
    intro inside
    have apart : cursor.testBit ≠ endBit := by
      rintro rfl
      exact inside further
    exact ⟨walk.phase.resolve_right fun off => apart off.1,
      passed.resolve_right fun off => apart off.1⟩
  refine ⟨further, ?_, ?_⟩
  · intro unreached offsetLow offsetHigh
    have inside : ¬dir.before endBit (cursor.nextElement dir).testBit := by
      rw [← Bool.not_eq_true, Direction.reached_iff] at unreached
      cases dir <;> simp only [Direction.before] at unreached ⊢ <;> omega
    obtain ⟨phase, passed⟩ := onPhase inside
    apply walk.enter _ further inside
    · simp only [Cursor.nextElement, Int.mul_comm]
    · exact entry
    · exact ⟨offsetLow, offsetHigh⟩
    · exact same ▸ passed
    · left
      unfold Cursor.InPhase at phase ⊢
      simp only [Cursor.nextElement]
      omega
  · intro outside
    split
    case isFalse past =>
      apply walk.stop (cursor.nextBit dir) _ passed
      rw [Direction.goesOn_iff, not_not, same] at past
      exact past
    case isTrue goesOn =>
      have inside := (dir.goesOn_iff _ _).mp goesOn
      obtain ⟨phase, passed⟩ := onPhase inside
      unfold Cursor.InPhase at phase
      apply walk.enter ((cursor.nextElement dir).nextWord dir) further inside
      · simp only [Cursor.nextElement, Cursor.nextWord, Int.mul_comm]
      · exact entry
      · exact entry
      · exact same ▸ passed
      · by_cases inner : 0 ≤ cursor.searchOffset + dir.sign ∧ cursor.searchOffset + dir.sign < 32
        · right
          have ended := outside.resolve_right (not_not.mpr inner)
          unfold OffPhase
          rw [Direction.reached_iff] at ended
          cases dir <;>
            simp only [Direction.before, Cursor.nextWord, Cursor.nextElement, Direction.sign,
              Direction.entry] at further ahead ended inside inner ⊢ <;> omega
        · left
          unfold Cursor.InPhase
          cases dir <;>
            simp only [Cursor.nextWord, Cursor.nextElement, Direction.sign, Direction.entry]
              at inner ⊢ <;> omega

/-- One round of the loop over a search word finds a clear bit or passes an element. -/
theorem tryElement (sound : ctl.Sound) :
    ∃ last found, (if !test (ctl.searchBits cursor.searchIndex) cursor.searchOffset then
        ctl.searchElement dir endBit 32 cursor else (cursor, false)) = (last, found) ∧
      if found then ctl.Walk dir start endBit last ∧ ctl.map.isSet last.testBit = false
      else last.nextElement dir = cursor.nextElement dir ∧
        (ctl.Passed dir start endBit (cursor.nextBit dir) ∨
          cursor.testBit = endBit ∧ OffPhase dir start endBit) := by
  cases isSet : test (ctl.searchBits cursor.searchIndex) cursor.searchOffset with
  | false =>
    have low := walk.within.low
    have high := walk.within.high
    obtain ⟨last, found, res, map, search, offset, fate⟩ := walk.searchElement 32
      (by cases dir <;> simp only [Direction.left] <;> omega)
    refine ⟨last, found, by simpa using res, ?_⟩
    cases found with
    | true => exact fate
    | false =>
      refine ⟨?_, .inl fate⟩
      simp only [Cursor.nextElement, map, search, offset]
  | true =>
    refine ⟨cursor, false, by simp, rfl, ?_⟩
    rcases walk.phase with phase | off
    · exact .inl (walk.skipElement sound phase isSet)
    · exact .inr off

end

/-- The loop over a search word finds a clear bit, goes on or stops. -/
theorem searchWord (rounds : Nat) (walk : ctl.Walk dir start endBit cursor)
    (sound : ctl.Sound) (enough : dir.left cursor.searchOffset ≤ rounds) :
    ∃ last found, ctl.searchWord dir endBit rounds cursor = (last, found) ∧
      if found then ctl.Walk dir start endBit last ∧
        ctl.map.isSet last.testBit = false else dir.before cursor.testBit last.testBit ∧
        if dir.goesOn last.testBit endBit then
          ctl.Walk dir start endBit (last.nextWord dir)
        else ctl.Stopped dir start endBit := by
  induction rounds generalizing cursor with
  | zero =>
    have low := walk.searchLow
    have high := walk.searchHigh
    cases dir <;> simp only [Direction.left] at enough <;> omega
  | succ rounds ih =>
    obtain ⟨last, found, tried, fate⟩ := walk.tryElement sound
    rw [Control.searchWord, if_pos ⟨walk.searchLow, walk.searchHigh⟩, tried]
    cases found with
    | true => exact ⟨last, true, rfl, fate⟩
    | false =>
      obtain ⟨same, passed⟩ := fate
      obtain ⟨further, inner, outer⟩ := walk.nextElement passed
      simp only [Bool.false_eq_true, if_false, same]
      split
      case isTrue reached => exact ⟨_, false, rfl, further, outer (.inl reached)⟩
      case isFalse unreached =>
        by_cases off : 0 ≤ cursor.searchOffset + dir.sign ∧ cursor.searchOffset + dir.sign < 32
        · have next := inner (by simpa using unreached) off.1 off.2
          obtain ⟨last, found, res, fate⟩ := ih next (by
            cases dir <;>
              simp only [Direction.left, Direction.sign, Cursor.nextElement] at enough ⊢ <;> omega)
          refine ⟨last, found, res, ?_⟩
          cases found with
          | true => exact fate
          | false =>
            refine ⟨?_, fate.2⟩
            have later := fate.1
            cases dir <;> simp only [Direction.before] at further later ⊢ <;> omega
        · refine ⟨cursor.nextElement dir, false, ?_, further, outer (.inr off)⟩
          cases rounds with
          | zero => rfl
          | succ rounds =>
            rw [Control.searchWord, if_neg]
            exact off

/-- The step over a search word without clear bits. -/
theorem skip (walk : ctl.Walk dir start endBit cursor) (sound : ctl.Sound)
    (full : ctl.searchBits cursor.searchIndex = elementSet) :
    dir.before cursor.testBit (cursor.skip dir).testBit ∧
      if dir.goesOn (cursor.skip dir).testBit endBit then
        ctl.Walk dir start endBit ((cursor.skip dir).nextWord dir)
      else ctl.Stopped dir start endBit := by
  obtain ⟨low, high, place⟩ := walk.within
  have searchLow := walk.searchLow
  have searchHigh := walk.searchHigh
  have further : dir.before cursor.testBit (cursor.skip dir).testBit := by
    cases dir <;> simp only [Direction.before, Cursor.skip] <;> omega
  have passed : ctl.Passed dir start endBit (cursor.skip dir).testBit ∨
      cursor.testBit = endBit ∧ OffPhase dir start endBit := by
    rcases walk.phase with phase | off
    · left
      unfold Cursor.InPhase at phase
      apply walk.marked sound
      · intro element
        by_cases own : mapIndex element = cursor.searchIndex
        · left
          apply Map.isSet_of_element
          rw [own, full]
        · right
          unfold Bitmap.mapIndex at own
          cases dir <;> simp only [Direction.before, Cursor.skip, Direction.entry] <;> omega
      · cases dir <;> simp only [Cursor.skip, Direction.entry] <;> omega
    · exact .inr off
  refine ⟨further, ?_⟩
  split
  case isFalse past =>
    apply walk.stop (cursor.skip dir).testBit _ passed
    rw [Direction.goesOn_iff, not_not] at past
    exact past
  case isTrue goesOn =>
    have inside := (dir.goesOn_iff _ _).mp goesOn
    have apart : cursor.testBit ≠ endBit := by
      rintro rfl
      exact inside further
    have phase := walk.phase.resolve_right fun off => apart off.1
    unfold Cursor.InPhase at phase
    apply walk.enter ((cursor.skip dir).nextWord dir) further inside
    · cases dir <;> simp only [Cursor.skip, Cursor.nextWord] <;> omega
    · cases dir <;> simp [Cursor.skip, Cursor.nextWord]
    · cases dir <;> simp [Cursor.nextWord, Direction.entry]
    · exact passed.resolve_right fun off => apart off.1
    · left
      unfold Cursor.InPhase
      cases dir <;>
        simp only [Cursor.skip, Cursor.nextWord, Direction.entry, Direction.sign] <;> omega

/-- The search finds a clear bit or stops. -/
theorem searchWords (rounds : Nat) (walk : ctl.Walk dir start endBit cursor)
    (sound : ctl.Sound) (enough : (endBit - cursor.testBit) * dir.sign < rounds) :
    ∃ last found, ctl.searchWords dir endBit rounds cursor = some (last, found) ∧
      if found then ctl.Walk dir start endBit last ∧
        ctl.map.isSet last.testBit = false else ctl.Stopped dir start endBit := by
  induction rounds generalizing cursor with
  | zero =>
    have inside := walk.inside
    cases dir <;> simp only [Direction.before, Direction.sign] at inside enough <;> omega
  | succ rounds ih =>
    have searchLow := walk.searchLow
    have searchHigh := walk.searchHigh
    have round : ∃ last found, (if ctl.searchBits cursor.searchIndex ≠ elementSet then
          ctl.searchWord dir endBit 32 cursor
        else (cursor.skip dir, false)) = (last, found) ∧
        if found then ctl.Walk dir start endBit last ∧ ctl.map.isSet last.testBit = false
        else dir.before cursor.testBit last.testBit ∧
          if dir.goesOn last.testBit endBit then
            ctl.Walk dir start endBit (last.nextWord dir)
          else ctl.Stopped dir start endBit := by
      split
      case isTrue =>
        exact walk.searchWord 32 sound (by cases dir <;> simp only [Direction.left] <;> omega)
      case isFalse full => exact ⟨_, false, rfl, walk.skip sound (not_not.mp full)⟩
    obtain ⟨last, found, res, fate⟩ := round
    rw [Control.searchWords, res]
    cases found with
    | true => exact ⟨last, true, rfl, fate⟩
    | false =>
      obtain ⟨further, fate⟩ := fate
      by_cases goesOn : dir.goesOn last.testBit endBit = true
      · rw [if_pos goesOn] at fate
        simp only [Cursor.nextWord_testBit, goesOn]
        apply ih fate
        cases dir <;>
          simp only [Direction.before, Direction.sign, Cursor.nextWord] at further enough ⊢ <;> omega
      · rw [if_neg goesOn] at fate
        simp only [Cursor.nextWord_testBit, goesOn]
        exact ⟨_, false, rfl, fate⟩

end Control.Walk
theorem windowEnd_bounds (size : Nat) (dir : Direction) (start : Int) (low : 0 ≤ start)
    (high : start < size) :
    0 ≤ windowEnd size dir start ∧ windowEnd size dir start < size ∧
      ¬dir.before (windowEnd size dir start) start ∧
      (windowEnd size dir start - start) * dir.sign < window.toNat + 1 := by
  unfold windowEnd window
  cases dir <;> simp only [Direction.before, Direction.sign] <;> omega

/-- A search begins at its start. -/
theorem Control.Walk.begin (ctl : Control) (dir : Direction) (start : Int)
    (low : 0 ≤ start) (high : start < ctl.size) :
    ctl.Walk dir start (windowEnd ctl.size dir start) (.start start) := by
  obtain ⟨endLow, endHigh, inside, -⟩ := windowEnd_bounds ctl.size dir start low high
  constructor
  · exact endLow
  · exact endHigh
  · constructor <;> simp only [Cursor.start, mapIndex, mapOffset] <;> omega
  · simp only [Cursor.start, mapOffset]
    omega
  · simp only [Cursor.start, mapOffset]
    omega
  · exact inside
  · cases dir <;> simp [Direction.before, Cursor.start]
  · intro bit _ _ behind _ upTo
    exact absurd upTo behind
  · left
    unfold Cursor.InPhase
    simp only [Cursor.start, mapIndex, mapOffset]
    omega

namespace Control

variable {ctl : Control}

variable {dir : Direction}

theorem Stopped.exhausted {start : Int}
    (stopped : ctl.Stopped dir start (windowEnd ctl.size dir start)) :
    ctl.Exhausted dir start := by
  obtain ⟨passed, ended⟩ := stopped
  refine ⟨?_, ended⟩
  intro bit high behind upTo
  apply passed bit (by omega) (by omega) behind _ upTo
  cases dir <;> simp only [Direction.before] at upTo ⊢ <;> omega

/-- What a found bit is: a clear bit with the bits before it set, in phase with the search
map unless it is the end of the window off phase. -/
theorem Sound.take (sound : ctl.Sound) {start endBit : Int} {cursor : Cursor}
    (walk : ctl.Walk dir start endBit cursor) (low : 0 ≤ start) (high : start < ctl.size)
    (cleared : ctl.map.isSet cursor.testBit = false)
    (straight : cursor.InPhase ∨ ctl.map.setBit cursor.testBit (mapIndex cursor.testBit) ≠ elementSet)
    : (ctl.take cursor).Sound := by
  obtain ⟨offsetLow, offsetHigh, place⟩ := walk.within
  have searchLow := walk.searchLow
  have searchHigh := walk.searchHigh
  have endLow := walk.endLow
  have endHigh := walk.endHigh
  have inside := walk.inside
  have ahead := walk.ahead
  have index : mapIndex cursor.testBit = cursor.mapIndex := by
    unfold mapIndex
    omega
  have off : mapOffset cursor.testBit = cursor.mapOffset := by
    unfold mapOffset
    omega
  have bounds : 0 ≤ cursor.testBit ∧ cursor.testBit < ctl.size := by
    cases dir <;> simp only [Direction.before] at inside ahead <;> omega
  have taken : ctl.take cursor = { ctl with
      free := ctl.free - 1
      map := ctl.map.setBit cursor.testBit
      searchBits := (ctl.take cursor).searchBits } := by
    simp only [Control.take, Map.setBit, index, off]
  rw [taken]
  apply sound.setBit cursor.testBit bounds.1 bounds.2 cleared
  apply Sound.mark
  unfold Control.take
  simp only
  split
  case isFalse => exact .inl rfl
  case isTrue full =>
    have filled : ctl.map.setBit cursor.testBit (mapIndex cursor.testBit) = elementSet := by
      rw [Map.setBit, update_self, index, off]
      exact full
    refine .inr ⟨?_, filled⟩
    have phase := straight.resolve_right (not_not.mpr filled)
    unfold Cursor.InPhase at phase
    have word : mapIndex cursor.mapIndex = cursor.searchIndex := by
      unfold mapIndex
      omega
    have bit : mapOffset cursor.mapIndex = cursor.searchOffset := by
      unfold mapOffset
      omega
    rw [index, Map.setBit, word, bit]

/-- A search in one window: it finds a bit and keeps the bitmap sound, exhausts the window or
fails, unless it is misled. -/
theorem Sound.searchMapForClearBit (sound : ctl.Sound) (loaded : Bool) (dir : Direction)
    (start : Int) (low : 0 ≤ start) (high : start < ctl.size) (straight : ctl.FullBefore
      dir start → OffPhase dir start (windowEnd ctl.size dir start) →
      ctl.map.isSet (windowEnd ctl.size dir start) = false → set (ctl.map
      (mapIndex (windowEnd ctl.size dir start))) (bitMask (mapOffset (windowEnd
      ctl.size dir start))) ≠ elementSet) :
    ∃ next outcome, ctl.searchMapForClearBit loaded start dir = some (next, outcome) ∧
      next.Sound ∧ (outcome = .nothing → next = ctl ∧ ctl.Exhausted dir start) := by
  unfold Control.searchMapForClearBit
  cases loaded with
  | false => exact ⟨ctl, .error, rfl, sound, by simp⟩
  | true =>
    obtain ⟨-, -, -, enough⟩ := windowEnd_bounds ctl.size dir start low high
    obtain ⟨last, found, res, fate⟩ := (Walk.begin ctl dir start low high).searchWords
      (window.toNat + 1) sound (by simpa [Cursor.start] using enough)
    rw [res]
    cases found with
    | false => exact ⟨ctl, .nothing, rfl, sound, fun _ => ⟨rfl, Stopped.exhausted fate⟩⟩
    | true =>
      obtain ⟨walk, cleared⟩ := fate
      refine ⟨ctl.take last, .found last.testBit, rfl, ?_, by simp⟩
      apply sound.take walk low high cleared
      rcases walk.phase with phase | ⟨ended, off⟩
      · exact .inl phase
      · right
        rw [Map.setBit, update_self, ended]
        apply straight _ off
        · rw [← ended]
          exact cleared
        · intro bit below behind upTo
          apply walk.passed bit (by omega) (by omega) behind
          · cases dir <;> simp only [Direction.before] at upTo ⊢ <;> omega
          · rw [ended]
            exact upTo

/-- The state of the loop of `rtems_rfs_bitmap_map_alloc` in a round: the seeds are at the
windows of the round as long as these are inside, and nothing was found before. -/
structure Seeds (control : Control) (seed : Int) (round : Nat) (upperSeed lowerSeed : Int) :
    Prop where
  low : 0 ≤ seed
  high : seed < control.size
  upper : upperSeed < control.size → upperSeed = windowStart seed .up round
  above : ¬upperSeed < control.size → ¬windowStart seed .up round < control.size
  lower : 0 ≤ lowerSeed → lowerSeed = windowStart seed .down round
  below : ¬0 ≤ lowerSeed → ¬0 ≤ windowStart seed .down round
  exhausted : ∀ earlier < round, ∀ side : Direction, control.Searched seed side earlier →
    control.Exhausted side (windowStart seed side earlier)

namespace Seeds

variable {seed : Int} {round : Nat} {upperSeed lowerSeed : Int}

section

variable (seeds : ctl.Seeds seed round upperSeed lowerSeed)
include seeds

theorem searched_up : upperSeed < ctl.size ↔ ctl.Searched seed .up round := by
  have low := seeds.low
  have upper := seeds.upper
  have above := seeds.above
  unfold Searched windowStart window at *
  simp only [Direction.sign] at *
  omega

theorem searched_down : 0 ≤ lowerSeed ↔ ctl.Searched seed .down round := by
  have high := seeds.high
  have lower := seeds.lower
  have below := seeds.below
  unfold Searched windowStart window at *
  simp only [Direction.sign] at *
  omega

/-- A window that is searched comes early. -/
theorem early (searched : ctl.Searched seed dir round) : round < ctl.size := by
  have low := seeds.low
  have high := seeds.high
  obtain ⟨inside, outside⟩ := searched
  unfold windowStart window at inside outside
  cases dir <;> simp only [Direction.sign] at inside outside <;> omega

/-- The next round. -/
theorem advance (up : upperSeed < ctl.size → ctl.Exhausted .up upperSeed)
    (down : 0 ≤ lowerSeed → ctl.Exhausted .down lowerSeed) :
    ctl.Seeds seed (round + 1) (if upperSeed < ctl.size then upperSeed + window else upperSeed)
      (if 0 ≤ lowerSeed then lowerSeed - window else lowerSeed) := by
  have upper := seeds.upper
  have above := seeds.above
  have lower := seeds.lower
  have below := seeds.below
  constructor
  · exact seeds.low
  · exact seeds.high
  iterate 4
    · simp only [windowStart, window, Direction.sign] at *
      split <;> push_cast <;> omega
  · intro earlier before side searched
    by_cases last : earlier = round
    · subst last
      cases side with
      | up =>
        have inside := seeds.searched_up.mpr searched
        exact seeds.upper inside ▸ up inside
      | down =>
        have inside := seeds.searched_down.mpr searched
        exact seeds.lower inside ▸ down inside
    · exact seeds.exhausted earlier (by omega) side searched

end

end Seeds

/-- A search that is not misled in a window, which may be outside of the bitmap. -/
theorem Sound.tryWindow (sound : ctl.Sound) (loaded : Bool) {seed : Int}
    (straight : ¬ctl.Misled seed) {round : Nat} {upperSeed lowerSeed : Int}
    (seeds : ctl.Seeds seed round upperSeed lowerSeed) (dir : Direction) (start : Int)
    (inside : Prop) [Decidable inside] (searched : inside ↔ ctl.Searched seed dir round)
    (place : inside → start = windowStart seed dir round) (up : dir = .down →
      ctl.Searched seed .up round → ctl.Exhausted .up (windowStart seed .up round)) :
    ∃ next outcome, (if inside then ctl.searchMapForClearBit loaded start dir
      else some (ctl, .nothing)) = some (next, outcome) ∧ next.Sound ∧
      (outcome = .nothing → next = ctl ∧ (inside → ctl.Exhausted dir start)) := by
  split
  case isFalse outside => exact ⟨ctl, .nothing, rfl, sound, fun _ => ⟨rfl, (absurd · outside)⟩⟩
  case isTrue within =>
    have range := searched.mp within
    obtain rfl := place within
    obtain ⟨next, outcome, res, kept, none⟩ :=
      sound.searchMapForClearBit loaded dir _ range.1 range.2 (by
        intro full off cleared last
        exact straight ⟨round, seeds.early range, dir, range, seeds.exhausted, up, full, off,
          cleared, last⟩)
    refine ⟨next, outcome, res, kept, ?_⟩
    intro nothing
    exact ⟨(none nothing).1, fun _ => (none nothing).2⟩

section

variable (sound : ctl.Sound) (loaded : Nat → Direction → Bool) (seed : Int)
  (straight : ¬ctl.Misled seed)
include sound straight

/-- The search from a seed in all windows. -/
theorem Sound.allocWindows (rounds round : Nat) (upperSeed lowerSeed : Int)
    (seeds : ctl.Seeds seed round upperSeed lowerSeed) (positive : 0 < rounds)
    (enough : ctl.size < rounds + round) :
    ∃ next outcome, ctl.allocWindows loaded rounds round upperSeed lowerSeed =
      some (next, outcome) ∧ next.Sound := by
  induction rounds generalizing round upperSeed lowerSeed with
  | zero => omega
  | succ rounds ih =>
    rw [Control.allocWindows]
    split
    case isFalse => exact ⟨ctl, .nothing, rfl, sound⟩
    case isTrue inside =>
      have early : round < ctl.size := by
        rcases inside with upper | lower
        · exact seeds.early (seeds.searched_up.mp upper.2)
        · exact seeds.early (seeds.searched_down.mp lower.1)
      obtain ⟨next, outcome, res, kept, none⟩ := sound.tryWindow (loaded round .up) straight seeds
        .up upperSeed (upperSeed < ctl.size) seeds.searched_up seeds.upper (by simp)
      rw [res]
      cases outcome with
      | found bit => exact ⟨next, .found bit, rfl, kept⟩
      | error => exact ⟨next, .error, rfl, kept⟩
      | nothing =>
        obtain ⟨-, up⟩ := none rfl
        obtain ⟨next, outcome, res, kept, none⟩ := sound.tryWindow (loaded round .down) straight
          seeds .down lowerSeed (0 ≤ lowerSeed) seeds.searched_down seeds.lower (by
            intro _ searched
            have within := seeds.searched_up.mpr searched
            exact seeds.upper within ▸ up within)
        rw [res]
        cases outcome with
        | found bit => exact ⟨next, .found bit, rfl, kept⟩
        | error => exact ⟨next, .error, rfl, kept⟩
        | nothing =>
          obtain ⟨-, down⟩ := none rfl
          exact ih _ _ _ (seeds.advance up down) (by omega) (by omega)

/-- An allocation that is not misled. -/
theorem Sound.mapAlloc :
    ∃ next outcome, ctl.mapAlloc loaded seed = some (next, outcome) ∧ next.Sound := by
  unfold Control.mapAlloc
  by_cases inside : 0 ≤ seed ∧ seed < ctl.size
  · apply sound.allocWindows loaded seed straight _ _ _ _ _ (by omega) (by omega)
    have start : ∀ side, windowStart seed side 0 = seed := by simp [windowStart]
    constructor
    · exact inside.1
    · exact inside.2
    · exact fun _ => (start .up).symm
    · intro outside
      rw [start]
      exact outside
    · exact fun _ => (start .down).symm
    · intro outside
      rw [start]
      exact outside
    · omega
  · exact ⟨ctl, .nothing, by rw [Control.allocWindows, if_neg (by omega)], sound⟩

end

/-- A call that is not misled. -/
theorem Sound.step (sound : ctl.Sound) (op : Operation)
    (straight : Straight ctl op) {next : Control}
    (taken : ctl.step op = some next) : next.Sound := by
  cases op with
  | reopen loaded size memory =>
    simp only [Control.step] at taken
    split at taken
    · exact Sound.reopen size memory taken
    · cases taken
  | mapSet loaded bit =>
    cases taken
    split
    · exact sound.mapSet bit
    · exact sound
  | mapClear loaded bit =>
    cases taken
    split
    · exact sound.mapClear bit
    · exact sound
  | mapAlloc loaded seed =>
    obtain ⟨res, outcome, allocated, kept⟩ := sound.mapAlloc loaded seed straight
    simp only [Control.step, allocated] at taken
    exact Option.some.inj taken ▸ kept
  | mapSetAll loaded =>
    cases taken
    split
    · exact sound.mapSetAll
    · exact sound
  | mapClearAll loaded =>
    cases taken
    split
    · exact sound.mapClearAll
    · exact sound

end Control

/-- Over every run in which no allocation is misled, a set bit of the search map belongs to
an element whose bits below the size are all set, the number of free bits is the number of
clear bits below the size, and the next allocation returns. -/
theorem runs_keep_search_map (past : List Control) (control : Control)
    (run : Trace Initial Straight Control.step past control) :
    (∀ bit : Nat, bit < control.size → control.searchBits.isSet (mapIndex bit) →
      control.map.isSet bit) ∧
    control.free = ((List.range control.size).filter fun bit : Nat => !control.map.isSet bit).length ∧
    ∀ loaded seed, ¬control.Misled seed → (control.mapAlloc loaded seed).isSome := by
  have sound : control.Sound := run.invariant Control.Sound
    (fun _ ⟨_, size, memory, opened⟩ => Control.Sound.reopen size memory opened)
    (fun _ operation _ sound straight taken => sound.step operation straight taken)
  refine ⟨?_, ?_, ?_⟩
  · intro bit below marked
    exact sound.hides bit (by omega) (by omega) marked
  · rw [sound.free, List.countP_eq_length_filter]
  · intro loaded seed straight
    obtain ⟨next, outcome, allocated, -⟩ := sound.mapAlloc loaded seed straight
    simp [allocated]

instance (direction : Direction) (first second : Int) : Decidable (direction.before first second) :=
  match direction with
  | .up => inferInstanceAs (Decidable (first < second))
  | .down => inferInstanceAs (Decidable (second < first))

instance (property : Direction → Prop) [DecidablePred property] :
    Decidable (∀ direction, property direction) :=
  decidable_of_iff (property .up ∧ property .down)
    ⟨fun both direction => match direction with
      | .up => both.1
      | .down => both.2,
    fun all => ⟨all .up, all .down⟩⟩

instance (property : Direction → Prop) [DecidablePred property] :
    Decidable (∃ direction, property direction) :=
  decidable_of_iff (property .up ∨ property .down)
    ⟨fun either => either.elim (⟨.up, ·⟩) (⟨.down, ·⟩),
    fun ⟨direction, holds⟩ => match direction, holds with
      | .up, holds => .inl holds
      | .down, holds => .inr holds⟩

section

variable (ctl : Control)

instance (direction : Direction) (start : Int) :
    Decidable (ctl.FullBefore direction start) :=
  inferInstanceAs (Decidable (∀ bit : Nat, bit < ctl.size → ¬direction.before bit start →
    direction.before bit (windowEnd ctl.size direction start) → ctl.map.isSet bit))

instance (direction : Direction) (start : Int) :
    Decidable (ctl.Exhausted direction start) :=
  inferInstanceAs (Decidable (_ ∧ _))

instance (seed : Int) : Decidable (ctl.Misled seed) :=
  inferInstanceAs (Decidable (∃ round < ctl.size, ∃ direction : Direction,
    ctl.Searched seed direction round ∧ _))

instance (operation : Operation) : Decidable (Straight ctl operation) :=
  match operation with
  | .mapAlloc .. => inferInstanceAs (Decidable (¬_))
  | .reopen .. | .mapSet .. | .mapClear .. | .mapSetAll _ | .mapClearAll _ => .isTrue trivial

end

/-- A bitmap that was just opened. -/
def opened (size : Nat) (map : Map) : Control :=
  { size, free := 0, map, searchBits := fun _ => 0#32 : Control }.createSearch

theorem opened_initial (size : Nat) (map : Map) (positive : 0 < size) :
    Initial (opened size map) := by
  refine ⟨⟨size, 0, map, fun _ => 0#32⟩, size, fun _ => 0#32, ?_⟩
  rw [Control.reopen, if_neg (by omega)]
  rfl

/-- The only clear bit of the first element is allocated, and one of the second element. -/
theorem runs_keep_search_map_allocated :
    ∃ (past : List Control) (control : Control), Trace Initial Straight Control.step past control ∧
      control.size = 40 ∧ control.searchBits.isSet 0 = true ∧ control.map.isSet 3 = true ∧
      control.free = ((List.range 40).filter fun bit : Nat => !control.map.isSet bit).length := by
  obtain ⟨past, control, run, seen⟩ := Trace.observe Straight Control.step
    (opened 40 fun index => if index = 0 then 8#32 else 0xffffffff#32)
    (opened_initial _ _ (by decide))
    [.mapAlloc (fun _ _ => true) 35, .mapAlloc (fun _ _ => true) 2, .mapClear true 35,
      .mapAlloc (fun _ _ => true) 0]
    (fun control => (control.size, control.searchBits.isSet 0)) (40, true)
    (by decide +kernel) (by decide +kernel)
  obtain ⟨size, marked⟩ := Prod.mk.inj seen
  obtain ⟨full, free, -⟩ := runs_keep_search_map past control run
  rw [size] at full free
  exact ⟨past, control, run, size, marked, full 3 (by decide) marked, free⟩

/-- The end of the first window above the seed is the only clear bit of its element. Its
allocation sets the search bit of another element, which is clear. -/
theorem search_map_hides_clear_bits :
    ∃ (past : List Control) (control : Control),
      Trace Initial (fun _ _ => True) Control.step past control ∧
      control.size = 4096 ∧ control.searchBits.isSet (mapIndex 3072) = true ∧
      control.map.isSet 3072 = false := by
  obtain ⟨past, control, run, seen⟩ := Trace.observe (fun _ _ => True) Control.step
    (opened 4096 fun index => if index = 65 then 1#32 else if index = 96 then 0xffffffff#32 else 0#32)
    (opened_initial _ _ (by decide))
    [.mapAlloc (fun _ _ => true) 32]
    (fun control => (control.size, control.searchBits.isSet (mapIndex 3072),
      control.map.isSet 3072)) (4096, true, false)
    (by decide +kernel) (by decide +kernel)
  simp only [Prod.mk.injEq] at seen
  exact ⟨past, control, run, seen⟩

end Rtems.Rfs.Bitmap
