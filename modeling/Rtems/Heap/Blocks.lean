import Mathlib.Data.List.Perm.Basic
import Rtems.Heap.Headers

/-!
# Block lists and the memory that represents them

Abstractly a heap is the list of its blocks from the first to the last block,
each with a size and a use, together with the order of its free list. `Tiles`
says that the size words encode the block list: every block stores its size and
whether its predecessor is used, and a free block is followed by its own size.
`Represents` adds the geometry of the area and the free list ring. Every routine
is described by the edit it makes to the block list; the lemmas below move these
facts across an edit that replaces a few neighbouring blocks.
-/

namespace Rtems.Heap

open ByteMemory LinkRing

variable {port : Port}

/-- What a block is used for. A gap covers the space between two areas of an
extended heap. A pending block has been taken off the free list while the flag of
its successor is not yet rewritten; it occurs only inside an allocation. -/
inductive Use where
  | free
  | used
  | gap
  | pending
  deriving DecidableEq

structure Block where
  size : Nat
  use : Use
  deriving DecidableEq

/-- The number of bytes that a list of neighbouring blocks covers. -/
def total (blocks : List Block) : Nat := (blocks.map Block.size).sum

/-- The blocks with their addresses, starting at an address. -/
def placed : Nat → List Block → List (Nat × Block)
  | _, [] => []
  | start, block :: rest => (start, block) :: placed (start + block.size) rest

/-- The addresses of the free blocks in address order. -/
def freeAddresses (start : Nat) (blocks : List Block) : List Nat :=
  ((placed start blocks).filter fun entry => entry.2.use == .free).map Prod.fst

/-- The flag that the successor of a block carries for it. -/
def Marks : Use → Bool → Prop
  | .free, flag => flag = false
  | .used, flag => flag = true
  | .gap, flag => flag = true
  | .pending, _ => True

/-- What the two ends of the block list hold: the size word of the last block, and
for the first block of every area the value in its repeated size word, which is
not used for a size there but for the end of the area. -/
structure Ends where
  last : Nat
  link : Nat → Nat

/-- The size words of one block: its own size with the flag of its predecessor, if
it is free a used predecessor and its size repeated in its successor, and if it is
a gap the link in the first block of the next area. -/
def Header (fields : Headers) (tail : Ends) (start : Nat) (flag : Bool) (block : Block) : Prop :=
  fields.sizeAndFlag start = block.size + flag.toNat ∧
    (block.use = .free → flag = true ∧ fields.prevSize (start + block.size) = block.size) ∧
    (block.use = .gap → fields.prevSize (start + block.size) = tail.link (start + block.size))

/-- The size words of neighbouring blocks, up to the flag for their successor. -/
def Front (fields : Headers) (tail : Ends) : Nat → Bool → List Block → Bool → Prop
  | _, flag, [], after => after = flag
  | start, flag, block :: rest, after =>
      Header fields tail start flag block ∧
        ∃ inner, Marks block.use inner ∧ Front fields tail (start + block.size) inner rest after

/-- The size words of the blocks up to and including the last block. -/
def Tiles (fields : Headers) (tail : Ends) : Nat → Bool → List Block → Prop
  | start, flag, [] => fields.sizeAndFlag start = tail.last + flag.toNat
  | start, flag, block :: rest =>
      Header fields tail start flag block ∧
        ∃ inner, Marks block.use inner ∧ Tiles fields tail (start + block.size) inner rest

/-! ## Lists of blocks -/

@[simp] theorem total_nil : total [] = 0 := rfl

@[simp] theorem total_cons (block : Block) (rest : List Block) :
    total (block :: rest) = block.size + total rest := by simp [total]

@[simp] theorem total_append (front back : List Block) :
    total (front ++ back) = total front + total back := by simp [total]

@[simp] theorem placed_nil (start : Nat) : placed start [] = [] := rfl

@[simp] theorem placed_cons (start : Nat) (block : Block) (rest : List Block) :
    placed start (block :: rest) = (start, block) :: placed (start + block.size) rest := rfl

@[simp] theorem placed_append (start : Nat) (front back : List Block) :
    placed start (front ++ back) = placed start front ++ placed (start + total front) back := by
  induction front generalizing start with
  | nil => simp
  | cons block rest ih => simp [ih, Nat.add_assoc]

section

variable (start addr : Nat) (block : Block) (blocks : List Block)
  (mem : (addr, block) ∈ placed start blocks)
include start addr mem

/-- A placed block splits the list at its address. -/
theorem placed_split :
    ∃ front back, blocks = front ++ block :: back ∧ addr = start + total front := by
  induction blocks generalizing start with
  | nil => simp at mem
  | cons other rest ih =>
    simp only [placed_cons, List.mem_cons] at mem
    rcases mem with ⟨rfl, rfl⟩ | later
    · exact ⟨[], rest, by simp, by simp⟩
    · obtain ⟨front, back, rfl, rfl⟩ := ih _ later
      exact ⟨other :: front, back, by simp, by simp [Nat.add_assoc]⟩

theorem placed_mem : block ∈ blocks := by
  obtain ⟨front, back, rfl, -⟩ := placed_split start addr block blocks mem
  simp

theorem placed_bounds : start ≤ addr ∧ addr + block.size ≤ start + total blocks := by
  obtain ⟨front, back, rfl, rfl⟩ := placed_split start addr block blocks mem
  simp only [total_append, total_cons]
  omega

end

/-- Two placed blocks are the same one or do not overlap. -/
theorem placed_apart (start : Nat) (blocks : List Block) (left right : Nat × Block)
    (first : left ∈ placed start blocks) (second : right ∈ placed start blocks) :
    left = right ∨ left.1 + left.2.size ≤ right.1 ∨ right.1 + right.2.size ≤ left.1 := by
  induction blocks generalizing start with
  | nil => simp at first
  | cons block rest ih =>
    simp only [placed_cons, List.mem_cons] at first second
    rcases first with rfl | first <;> rcases second with rfl | second
    · exact .inl rfl
    · have bounds := placed_bounds _ _ _ _ second
      exact .inr (.inl (by simpa using bounds.1))
    · have bounds := placed_bounds _ _ _ _ first
      exact .inr (.inr (by simpa using bounds.1))
    · exact ih _ first second

@[simp] theorem freeAddresses_nil (start : Nat) : freeAddresses start [] = [] := rfl

theorem freeAddresses_cons (start : Nat) (block : Block) (rest : List Block) :
    freeAddresses start (block :: rest) =
      (if block.use = .free then [start] else []) ++ freeAddresses (start + block.size) rest := by
  by_cases free : block.use = .free <;> simp [freeAddresses, free]

@[simp] theorem freeAddresses_append (start : Nat) (front back : List Block) :
    freeAddresses start (front ++ back) =
      freeAddresses start front ++ freeAddresses (start + total front) back := by
  simp [freeAddresses]

theorem mem_freeAddresses (start addr : Nat) (blocks : List Block) :
    addr ∈ freeAddresses start blocks ↔ ∃ size, (addr, ⟨size, .free⟩) ∈ placed start blocks := by
  simp only [freeAddresses, List.mem_map, List.mem_filter, beq_iff_eq, Prod.exists]
  constructor
  · rintro ⟨place, ⟨size, use⟩, ⟨mem, rfl⟩, rfl⟩
    exact ⟨size, mem⟩
  · rintro ⟨size, mem⟩
    exact ⟨addr, ⟨size, .free⟩, ⟨mem, rfl⟩, rfl⟩

/-! ## Size words across an edit -/

/-- Splitting the encoded list at any point. -/
theorem tiles_append (fields : Headers) (tail : Ends) (start : Nat) (flag : Bool)
    (front back : List Block) :
    Tiles fields tail start flag (front ++ back) ↔
      ∃ inner, Front fields tail start flag front inner ∧
        Tiles fields tail (start + total front) inner back := by
  induction front generalizing start flag with
  | nil => simp [Front]
  | cons block rest ih =>
    simp only [List.cons_append, Tiles, ih, Nat.add_assoc]
    constructor
    · rintro ⟨header, inner, marks, after, front, tiles⟩
      exact ⟨after, ⟨header, inner, marks, front⟩, tiles⟩
    · rintro ⟨after, ⟨header, inner, marks, front⟩, tiles⟩
      exact ⟨header, inner, marks, after, front, tiles⟩

section

variable (fields other : Headers) (tail : Ends) (start : Nat)

/-- A block reads its own size word and, unless it is used, the repeated size of its
successor. -/
theorem header_congr (flag : Bool) (block : Block) (header : Header fields tail start flag block)
    (size : other.sizeAndFlag start = fields.sizeAndFlag start) (repeated : block.use ≠ .used →
      other.prevSize (start + block.size) = fields.prevSize (start + block.size)) :
    Header other tail start flag block := by
  refine ⟨size.trans header.1, ?_, ?_⟩
  · intro free
    rw [repeated (by simp [free])]
    exact header.2.1 free
  · intro gap
    rw [repeated (by simp [gap])]
    exact header.2.2 gap

/-- The front part reads sizes below its end and repeated sizes up to its end. -/
theorem front_congr (flag after : Bool)
    (blocks : List Block) (pos : ∀ block ∈ blocks, 0 < block.size)
    (front : Front fields tail start flag blocks after) (sizes : ∀ addr, start ≤ addr →
      addr < start + total blocks → other.sizeAndFlag addr = fields.sizeAndFlag addr)
      (repeats : ∀ addr, start < addr → addr ≤ start + total blocks → other.prevSize
      addr = fields.prevSize addr) : Front other tail start flag blocks after := by
  induction blocks generalizing start flag with
  | nil => exact front
  | cons block rest ih =>
    obtain ⟨header, inner, marks, front⟩ := front
    have nonempty := pos block (by simp)
    simp only [total_cons] at sizes repeats
    refine ⟨header_congr _ _ _ _ _ _ header (sizes start (by omega) (by omega))
      fun _ => repeats _ (by omega) (by omega), inner, marks, ?_⟩
    · apply ih _ _ (fun other mem => pos other (by simp [mem])) front
      · intro addr lower upper
        exact sizes addr (by omega) (by omega)
      · intro addr lower upper
        exact repeats addr (by omega) (by omega)

/-- The remaining blocks read nothing below their start and no repeated size at
their start. -/
theorem tiles_congr (flag : Bool) (blocks : List Block)
    (pos : ∀ block ∈ blocks, 0 < block.size) (tiles : Tiles fields tail start flag blocks)
    (sizes : ∀ addr, start ≤ addr → other.sizeAndFlag addr = fields.sizeAndFlag addr)
    (repeats : ∀ addr, start < addr → other.prevSize addr = fields.prevSize addr) :
    Tiles other tail start flag blocks := by
  induction blocks generalizing start flag with
  | nil => exact (sizes start (le_refl _)).trans tiles
  | cons block rest ih =>
    obtain ⟨header, inner, marks, rest⟩ := tiles
    have nonempty := pos block (by simp)
    refine ⟨header_congr _ _ _ _ _ _ header (sizes start (le_refl _)) fun _ => repeats _ (by omega),
      inner, marks, ?_⟩
    · apply ih _ _ (fun other mem => pos other (by simp [mem])) rest
      · intro addr lower
        exact sizes addr (by omega)
      · intro addr lower
        exact repeats addr (by omega)

end

/-- The value of the first size word of a list, apart from the flag. -/
def headSize (tail : Ends) : List Block → Nat
  | [] => tail.last
  | block :: _ => block.size

theorem tiles_head (fields : Headers) (tail : Ends) (start : Nat) (flag : Bool) (blocks : List Block)
    (tiles : Tiles fields tail start flag blocks) :
    fields.sizeAndFlag start = headSize tail blocks + flag.toNat := by
  cases blocks with
  | nil => exact tiles
  | cons block rest => exact tiles.1.1

section

variable (fields other : Headers) (tail : Ends)

/-- Rewriting the flag at the start of the remaining blocks. A cleared flag needs
a first block that is not free. -/
theorem tiles_reflag (start : Nat) (flag newFlag : Bool) (blocks : List Block)
    (pos : ∀ block ∈ blocks, 0 < block.size) (tiles : Tiles fields tail start flag blocks)
    (marked : other.sizeAndFlag start = headSize tail blocks + newFlag.toNat)
    (separated : newFlag = false → ∀ block ∈ blocks.head?, block.use ≠ .free)
    (sizes : ∀ addr, start < addr → other.sizeAndFlag addr = fields.sizeAndFlag addr)
    (repeats : ∀ addr, start < addr → other.prevSize addr = fields.prevSize addr) :
    Tiles other tail start newFlag blocks := by
  cases blocks with
  | nil => exact marked
  | cons block rest =>
    obtain ⟨⟨size, repeated, linked⟩, inner, marks, rest⟩ := tiles
    have nonempty := pos block (by simp)
    refine ⟨⟨marked, ?_, ?_⟩, inner, marks, ?_⟩
    · intro free
      rw [repeats (start + block.size) (by omega)]
      refine ⟨?_, (repeated free).2⟩
      cases newFlag with
      | true => rfl
      | false => exact absurd free (separated rfl block (by simp))
    · intro gap
      rw [repeats (start + block.size) (by omega)]
      exact linked gap
    · apply tiles_congr fields other tail _ _ _ (fun other mem => pos other (by simp [mem])) rest
      · intro addr lower
        exact sizes addr (by omega)
      · intro addr lower
        exact repeats addr (by omega)

/-- The encoding depends only on the size words of the blocks and of the last block,
and on the repeated sizes behind the blocks that are not used. -/
theorem tiles_agree (start : Nat) (flag : Bool)
    (blocks : List Block) (tiles : Tiles fields tail start flag blocks) (sizes : ∀ entry ∈ placed
      start blocks, other.sizeAndFlag entry.1 = fields.sizeAndFlag entry.1) (repeats : ∀ entry ∈
      placed start blocks, entry.2.use ≠ .used → other.prevSize (entry.1 + entry.2.size) =
      fields.prevSize (entry.1 + entry.2.size))
    (last : other.sizeAndFlag (start + total blocks) = fields.sizeAndFlag (start + total blocks)) :
    Tiles other tail start flag blocks := by
  induction blocks generalizing start flag with
  | nil => exact last.trans tiles
  | cons block rest ih =>
    obtain ⟨header, inner, marks, tiles⟩ := tiles
    refine ⟨header_congr _ _ _ _ _ _ header (sizes (start, block) (by simp))
      (repeats (start, block) (by simp)), inner, marks, ?_⟩
    · apply ih _ _ tiles
      · intro entry mem
        exact sizes entry (by simp [mem])
      · intro entry mem
        exact repeats entry (by simp [mem])
      · simpa [Nat.add_assoc] using last

/-- A region becomes one block when its first and its following header are rewritten, its size is
repeated if it is free, and nothing outside of it changes. -/
theorem tiles_merge (start : Nat) (front middle back : List Block) (block : Block) (flag mark : Bool)
    (covered : total middle = block.size)
    (pos : ∀ block ∈ front ++ (middle ++ back), 0 < block.size)
    (tiles : Tiles fields tail start true (front ++ (middle ++ back)))
    (stored : fields.sizeAndFlag (start + total front) = headSize tail (middle ++ back) + flag.toNat)
    (solid : block.use ≠ .gap) (marks : Marks block.use mark)
    (separated : mark = false → ∀ next ∈ back.head?, next.use ≠ .free)
    (first : other.sizeAndFlag (start + total front) = block.size + flag.toNat)
    (following : other.sizeAndFlag (start + total front + block.size) =
      headSize tail back + mark.toNat)
    (repeated : block.use = .free →
      flag = true ∧ other.prevSize (start + total front + block.size) = block.size)
    (sizes : ∀ addr, addr < start + total front ∨ start + total front + block.size < addr →
      other.sizeAndFlag addr = fields.sizeAndFlag addr)
    (repeats : ∀ addr, addr ≤ start + total front ∨ start + total front + block.size < addr →
      other.prevSize addr = fields.prevSize addr) :
    Tiles other tail start true (front ++ block :: back) := by
  obtain ⟨outer, before, rest⟩ := (tiles_append fields tail start true front _).mp tiles
  obtain ⟨inner, -, after⟩ := (tiles_append fields tail _ outer middle back).mp rest
  rw [covered] at after
  obtain rfl : outer = flag := by
    have read := Nat.add_left_cancel ((tiles_head _ _ _ _ _ rest).symm.trans stored)
    revert read
    cases outer <;> cases flag <;> decide
  refine (tiles_append _ _ _ _ front _).mpr ⟨outer, ?_, ⟨first, repeated, ?_⟩, mark, marks, ?_⟩
  · apply front_congr _ _ _ _ _ _ _ (fun block mem => pos block (by simp [mem])) before
    · intro addr lower upper
      exact sizes addr (by omega)
    · intro addr lower upper
      exact repeats addr (by omega)
  · exact fun gap => absurd gap solid
  · apply tiles_reflag _ _ _ _ _ _ _ (fun block mem => pos block (by simp [mem])) after
    · exact following
    · exact separated
    · intro addr above
      exact sizes addr (.inr above)
    · intro addr above
      exact repeats addr (.inr above)

end

end Rtems.Heap
