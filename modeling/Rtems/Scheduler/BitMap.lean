import Mathlib.Data.List.Basic

/-!
# The priority bit map

Sixteen minor words of sixteen bits mark the priorities in use, and a major word marks
the minor words that are not zero. The most significant bit stands for the smallest
number, so that a count of leading zeros finds the highest priority. A node caches the
masks of its priority; `Marks` says which priorities a bit map marks, and each
operation has one law in terms of it.
-/

namespace Rtems.Scheduler

open Function (update_of_ne update_self)

/-- `Priority_bit_map_Word`. -/
abbrev Word := BitVec 16

/-- `Priority_bit_map_Control`. -/
structure BitMap where
  majorBitMap : Word
  bitMap : Nat → Word

/-- `Priority_bit_map_Information`. The pointer to the minor word is its index. -/
structure Information where
  minor : Nat
  readyMajor : Word
  readyMinor : Word
  blockMajor : Word
  blockMinor : Word

/-- `_Priority_Mask`. -/
def priorityMask (bitNumber : Nat) : Word :=
  0x8000#16 >>> bitNumber

/-- `_Priority_Major`. -/
def priorityMajor (priority : Nat) : Nat :=
  priority / 16

/-- `_Priority_Minor`. -/
def priorityMinor (priority : Nat) : Nat :=
  priority % 16

/-- `_Bitfield_Find_first_bit`: the leading zeros of a word. -/
def findFirstBit (value : Word) : Nat :=
  value.clz.toNat

/-- `_Priority_bit_map_Initialize`. -/
def BitMap.empty : BitMap :=
  { majorBitMap := 0, bitMap := fun _ => 0 }

/-- `_Priority_bit_map_Initialize_information`. -/
def initializeInformation (newPriority : Nat) : Information :=
  { minor := priorityMajor newPriority
    readyMajor := priorityMask (priorityMajor newPriority)
    blockMajor := ~~~priorityMask (priorityMajor newPriority)
    readyMinor := priorityMask (priorityMinor newPriority)
    blockMinor := ~~~priorityMask (priorityMinor newPriority) }

/-- `_Priority_bit_map_Add`. -/
def BitMap.add (map : BitMap) (info : Information) : BitMap :=
  { bitMap := Function.update map.bitMap info.minor (map.bitMap info.minor ||| info.readyMinor)
    majorBitMap := map.majorBitMap ||| info.readyMajor }

/-- `_Priority_bit_map_Remove`. -/
def BitMap.remove (map : BitMap) (info : Information) : BitMap :=
  let minor := map.bitMap info.minor &&& info.blockMinor
  { bitMap := Function.update map.bitMap info.minor minor
    majorBitMap := if minor = 0 then map.majorBitMap &&& info.blockMajor else map.majorBitMap }

/-- `_Priority_bit_map_Get_highest`. -/
def BitMap.getHighest (map : BitMap) : Nat :=
  let major := findFirstBit map.majorBitMap
  let minor := findFirstBit (map.bitMap major)
  (major <<< 4) + minor

/-- `_Priority_bit_map_Is_empty`. -/
def BitMap.isEmpty (map : BitMap) : Bool :=
  map.majorBitMap == 0

/-- The priorities that a bit map marks; a major bit is set exactly if its minor word
is not zero. -/
structure Marks (map : BitMap) (occupied : Nat → Prop) : Prop where
  minor : ∀ priority < 256,
    (map.bitMap (priorityMajor priority)).getMsbD (priorityMinor priority) = true ↔
      occupied priority
  major : ∀ index < 16, map.majorBitMap.getMsbD index = true ↔ map.bitMap index ≠ 0

/-- A mask has exactly the bit of its number. -/
theorem getMsbD_mask (bitNumber index : Nat) (bound : index < 16) :
    (priorityMask bitNumber).getMsbD index = decide (index = bitNumber) := by
  unfold priorityMask
  rw [BitVec.getMsbD_ushiftRight]
  by_cases small : index < bitNumber
  · simp [small, Nat.ne_of_lt small]
  · have top : ∀ rest < 16, (0x8000#16).getMsbD rest = decide (rest = 0) := by decide
    rw [top _ (by omega)]
    simp only [bound, small]
    exact decide_eq_decide.mpr (by omega)

/-- Testing a word with a mask reads the bit of that number. -/
theorem and_mask_ne_zero (word : Word) (bitNumber : Nat) (bound : bitNumber < 16) :
    word &&& priorityMask bitNumber ≠ 0 ↔ word.getMsbD bitNumber = true := by
  constructor
  · intro nonzero
    by_contra clear
    apply nonzero
    apply BitVec.eq_of_getMsbD_eq
    intro index small
    rw [BitVec.getMsbD_and, getMsbD_mask bitNumber index small]
    by_cases same : index = bitNumber
    · rw [same, Bool.not_eq_true] at *
      simp [clear]
    · simp [same]
  · intro set zero
    have bit : (word &&& priorityMask bitNumber).getMsbD bitNumber = true := by
      rw [BitVec.getMsbD_and, getMsbD_mask bitNumber bitNumber bound, set]
      simp
    simp [zero] at bit

/-- A word that is not zero has a set bit. -/
theorem ne_zero_iff (word : Word) : word ≠ 0 ↔ ∃ index < 16, word.getMsbD index = true := by
  constructor
  · intro nonzero
    by_contra none
    apply nonzero
    apply BitVec.eq_of_getMsbD_eq
    intro index small
    have clear : ¬ word.getMsbD index = true := fun set => none ⟨index, small, set⟩
    simpa using clear
  · rintro ⟨index, -, set⟩ rfl
    simp at set

/-- The leading zeros of a word lead to its first set bit. -/
theorem findFirstBit_spec (word : Word) (nonzero : word ≠ 0) :
    findFirstBit word < 16 ∧ word.getMsbD (findFirstBit word) = true ∧
      ∀ index < findFirstBit word, word.getMsbD index = false := by
  have small : word.clz.toNat < 16 := by
    have bound := BitVec.clz_lt_iff_ne_zero.mpr nonzero
    simpa [BitVec.lt_def] using bound
  refine ⟨small, ?_, ?_⟩
  · have set := BitVec.getLsbD_true_clz_of_ne_zero (by decide) nonzero
    simp only [findFirstBit, BitVec.getMsbD, small]
    exact set
  · intro index before
    have before : index < word.clz.toNat := before
    have high : word.toNat < 2 ^ (16 - word.clz.toNat) := BitVec.toNat_lt_two_pow_sub_clz
    have larger : word.toNat < 2 ^ (16 - 1 - index) :=
      Nat.lt_of_lt_of_le high (Nat.pow_le_pow_right (by decide) (by omega))
    simp only [BitVec.getMsbD, BitVec.getLsbD, Nat.testBit_lt_two_pow larger, Bool.and_false]

namespace Marks

variable {map : BitMap} {occupied : Nat → Prop}

/-- The empty bit map marks nothing. -/
theorem empty : Marks .empty fun _ => False := by
  refine ⟨?_, ?_⟩ <;> simp [BitMap.empty]

/-- Only the marked priorities matter. -/
theorem congr {other : Nat → Prop} (marks : Marks map occupied)
    (same : ∀ prio < 256, occupied prio ↔ other prio) : Marks map other :=
  ⟨fun prio bound => (marks.minor prio bound).trans (same prio bound), marks.major⟩

/-- A major bit is set exactly if one of its priorities is marked. -/
theorem major_iff (marks : Marks map occupied) (index : Nat) (bound : index < 16) :
    map.majorBitMap.getMsbD index = true ↔
      ∃ prio < 256, priorityMajor prio = index ∧ occupied prio := by
  rw [marks.major index bound, ne_zero_iff]
  constructor
  · rintro ⟨minor, small, set⟩
    have major : priorityMajor (16 * index + minor) = index := by
      unfold priorityMajor
      omega
    have rest : priorityMinor (16 * index + minor) = minor := by
      unfold priorityMinor
      omega
    refine ⟨16 * index + minor, by omega, major, ?_⟩
    apply (marks.minor _ (by omega)).mp
    rw [major, rest]
    exact set
  · rintro ⟨prio, small, rfl, marked⟩
    exact ⟨priorityMinor prio, Nat.mod_lt _ (by decide), (marks.minor prio small).mpr marked⟩

/-- Adding a priority marks it as well. -/
theorem add (marks : Marks map occupied) (added : Nat) (bound : added < 256) :
    Marks (map.add (initializeInformation added)) fun prio => prio = added ∨ occupied prio := by
  refine ⟨?_, ?_⟩
  · intro prio small
    have minor : priorityMinor prio < 16 := Nat.mod_lt _ (by decide)
    simp only [BitMap.add, initializeInformation]
    by_cases same : priorityMajor prio = priorityMajor added
    · rw [same, update_self, BitVec.getMsbD_or, getMsbD_mask _ _ minor, ← same,
        Bool.or_eq_true, marks.minor prio small, decide_eq_true_eq, or_comm]
      apply or_congr_left
      unfold priorityMajor priorityMinor at *
      omega
    · have different : prio ≠ added := fun equal => same (equal ▸ rfl)
      rw [update_of_ne same, marks.minor prio small]
      simp [different]
  · intro index small
    simp only [BitMap.add, initializeInformation, BitVec.getMsbD_or, getMsbD_mask _ _ small,
      Bool.or_eq_true, decide_eq_true_eq]
    by_cases same : index = priorityMajor added
    · rw [same, update_self]
      have minor : priorityMinor added < 16 := Nat.mod_lt _ (by decide)
      simp only [or_true, true_iff]
      apply (ne_zero_iff _).mpr
      exact ⟨priorityMinor added, minor, by simp [getMsbD_mask _ _ minor]⟩
    · rw [update_of_ne same, marks.major index small]
      simp [same]

/-- Removing a priority marks all others. -/
theorem remove (marks : Marks map occupied) (removed : Nat) (bound : removed < 256) :
    Marks (map.remove (initializeInformation removed))
      fun prio => prio ≠ removed ∧ occupied prio := by
  have below : priorityMajor removed < 16 := by
    unfold priorityMajor
    omega
  refine ⟨?_, ?_⟩
  · intro prio small
    have minor : priorityMinor prio < 16 := Nat.mod_lt _ (by decide)
    simp only [BitMap.remove, initializeInformation]
    by_cases same : priorityMajor prio = priorityMajor removed
    · rw [same, update_self, BitVec.getMsbD_and, BitVec.getMsbD_not,
        getMsbD_mask _ _ minor, ← same, Bool.and_eq_true, marks.minor prio small]
      simp only [minor, decide_true, Bool.true_and, Bool.not_eq_true', decide_eq_false_iff_not]
      rw [and_comm]
      apply and_congr_left
      intro
      unfold priorityMajor priorityMinor at *
      omega
    · have different : prio ≠ removed := fun equal => same (equal ▸ rfl)
      rw [update_of_ne same, marks.minor prio small]
      simp [different]
  · intro index small
    by_cases zero : map.bitMap (priorityMajor removed) &&& ~~~priorityMask (priorityMinor removed) = 0
    · simp only [BitMap.remove, initializeInformation, zero, if_true, BitVec.getMsbD_and,
        BitVec.getMsbD_not, getMsbD_mask _ _ small]
      by_cases same : index = priorityMajor removed
      · rw [same, update_self]
        simp
      · rw [update_of_ne same, ← marks.major index small]
        simp [same, small]
    · simp only [BitMap.remove, initializeInformation, zero, if_false]
      by_cases same : index = priorityMajor removed
      · rw [same, update_self, marks.major _ below]
        refine iff_of_true ?_ zero
        intro empty
        apply zero
        rw [empty]
        exact BitVec.zero_and
      · rw [update_of_ne same, marks.major index small]

/-- The major word is zero exactly if nothing is marked. -/
theorem major_ne_zero (marks : Marks map occupied) :
    map.majorBitMap ≠ 0 ↔ ∃ prio < 256, occupied prio := by
  rw [ne_zero_iff]
  constructor
  · rintro ⟨index, small, set⟩
    obtain ⟨prio, bound, -, marked⟩ := (marks.major_iff index small).mp set
    exact ⟨prio, bound, marked⟩
  · rintro ⟨prio, bound, marked⟩
    have below : priorityMajor prio < 16 := by
      unfold priorityMajor
      omega
    exact ⟨priorityMajor prio, below, (marks.major_iff _ below).mpr ⟨prio, bound, rfl, marked⟩⟩

/-- The highest priority is the smallest marked number. -/
theorem getHighest (marks : Marks map occupied) (some : ∃ prio < 256, occupied prio) :
    map.getHighest < 256 ∧ occupied map.getHighest ∧
      ∀ prio < 256, occupied prio → map.getHighest ≤ prio := by
  have nonzero := marks.major_ne_zero.mpr some
  obtain ⟨majorSmall, majorSet, majorFirst⟩ := findFirstBit_spec _ nonzero
  have minorNonzero := (marks.major _ majorSmall).mp majorSet
  obtain ⟨minorSmall, minorSet, minorFirst⟩ := findFirstBit_spec _ minorNonzero
  have value : map.getHighest = 16 * findFirstBit map.majorBitMap +
      findFirstBit (map.bitMap (findFirstBit map.majorBitMap)) := by
    simp only [BitMap.getHighest]
    omega
  rw [value]
  generalize findFirstBit map.majorBitMap = major at *
  generalize findFirstBit (map.bitMap major) = minor at *
  have majorValue : priorityMajor (16 * major + minor) = major := by
    unfold priorityMajor
    omega
  have minorValue : priorityMinor (16 * major + minor) = minor := by
    unfold priorityMinor
    omega
  refine ⟨by omega, ?_, ?_⟩
  · apply (marks.minor _ (by omega)).mp
    rw [majorValue, minorValue]
    exact minorSet
  · intro prio bound occupiedThere
    have minorThere := (marks.minor prio bound).mpr occupiedThere
    have below : priorityMajor prio < 16 := by
      unfold priorityMajor
      omega
    have majorThere := (marks.major_iff _ below).mpr ⟨prio, bound, rfl, occupiedThere⟩
    by_contra larger
    -- a smaller marked prio would have a smaller major number, or the same and a
    -- smaller minor number
    have order : priorityMajor prio < major ∨
        priorityMajor prio = major ∧ priorityMinor prio < minor := by
      unfold priorityMajor priorityMinor
      omega
    obtain before | ⟨same, before⟩ := order
    · rw [majorFirst _ before] at majorThere
      cases majorThere
    · rw [same, minorFirst _ before] at minorThere
      cases minorThere

end Marks

end Rtems.Scheduler
