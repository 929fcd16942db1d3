import Mathlib.Data.Finset.Card
import Mathlib.Data.Fintype.Basic
import Rtems.Library.Transition

/-!
# Buffers and their handles

The file system holds buffers of the block device layer. A buffer is on the chain of the
buffers that are attached to handles, or it was released by its last handle and waits on
one of two chains, for modified and for other buffers, until it is handed back or revived
by a request. The mark of a modification is kept by the handle and not by the buffer.

A buffer is identified by its block. Which buffers are held, which of them were marked
dirty since they were obtained and how they were handed back is recorded beside the state
of the source.
-/

namespace Rtems.Rfs.Buffer

open Transition
open Function (comp_def update update_of_ne update_self)
open List (append_assoc append_nil cons_append length_cons map_cons map_map map_nil mem_append
  mem_cons mem_singleton perm_middle)
open Finset (erase_eq_of_notMem mem_erase univ)

universe u
variable {H : Type u}

/-- `rtems_rfs_buffer_handle`. -/
structure Handle where
  dirty : Bool
  bnum : Nat
  buffer : Option Nat

/-- A buffer that was handed back: its block, whether it was handed back as modified and
whether a handle had marked it dirty. -/
structure Returned where
  block : Nat
  modified : Bool
  marked : Bool
deriving DecidableEq, Repr

/-- The part of `rtems_rfs_file_system` for the buffers with the handles. -/
structure System (H : Type u) where
  noLocalCache : Bool
  maxHeldBuffers : Nat
  handle : H → Handle
  references : Nat → Nat
  buffers : List Nat
  buffersCount : Nat
  release : List Nat
  releaseCount : Nat
  releaseModified : List Nat
  releaseModifiedCount : Nat
  held : Nat → Bool
  marked : Nat → Bool
  returned : List Returned

/-- The calls. A request may fail in the block device layer. -/
inductive Operation (H : Type u) where
  | request (handle : H) (block : Nat) (granted : Bool)
  | markDirty (handle : H)
  | release (handle : H)
  | close (handle : H)
  | buffersRelease
deriving DecidableEq

/-- `rtems_rfs_scan_chain` for a block that is on the chain: the chain is searched from its
end, and the buffer is extracted. -/
def scanChain (chain : List Nat) (block : Nat) : List Nat := (chain.reverse.erase block).reverse

namespace System

section

variable (system : System H)

/-- `rtems_rfs_buffer_io_release`. -/
def ioRelease (block : Nat) (modified : Bool) : System H :=
  { system with
    held := Function.update system.held block false
    marked := Function.update system.marked block false
    returned := ⟨block, modified, system.marked block⟩ :: system.returned }

/-- The part of `rtems_rfs_buffer_handle_release` for too many held buffers. A buffer that
is taken from an empty chain stops the system. -/
def trim : Option (System H) :=
  if system.maxHeldBuffers ≤ system.releaseCount + system.releaseModifiedCount then
    if system.releaseModifiedCount < system.releaseCount then
      match system.release with
      | [] => none
      | block :: rest =>
          some ({ system with release := rest, releaseCount := system.releaseCount - 1 }.ioRelease
            block false)
    else
      match system.releaseModified with
      | [] => none
      | block :: rest =>
          some ({ system with
            releaseModified := rest
            releaseModifiedCount := system.releaseModifiedCount - 1 }.ioRelease block true)
  else some system

/-- The part of `rtems_rfs_buffer_handle_release` for a buffer without references. -/
def retire (block : Nat) (dirty : Bool) : Option (System H) :=
  let system :=
    { system with
      buffers := system.buffers.erase block
      buffersCount := system.buffersCount - 1 }
  if system.noLocalCache then some (system.ioRelease block dirty)
  else
    match system.trim with
    | none => none
    | some system =>
        if dirty then
          some { system with
            releaseModified := system.releaseModified ++ [block]
            releaseModifiedCount := system.releaseModifiedCount + 1 }
        else
          some { system with
            release := system.release ++ [block]
            releaseCount := system.releaseCount + 1 }

variable [DecidableEq H]

/-- A handle changes. -/
def setHandle (handle : H) (value : Handle) : System H :=
  { system with handle := Function.update system.handle handle value }

/-- The handle loses its buffer, and the buffer a reference. -/
def detach (handle : H) (block : Nat) : System H :=
  { system with
    references := Function.update system.references block (system.references block - 1) }.setHandle
    handle { system.handle handle with buffer := none }

/-- `rtems_rfs_buffer_handle_release`. -/
def handleRelease (handle : H) : Option (System H) :=
  match (system.handle handle).buffer with
  | none => some system
  | some block =>
      let detached := system.detach handle block
      if detached.references block = 0 then detached.retire block (system.handle handle).dirty
      else some detached

/-- `rtems_rfs_buffer_handle_close`. -/
def handleClose (handle : H) : Option (System H) :=
  match system.handleRelease handle with
  | none => none
  | some system => some (system.setHandle handle ⟨false, 0, none⟩)

/-- The last part of `rtems_rfs_buffer_handle_request`: the buffer, which is on no chain, is
attached to the handle. -/
def attach (handle : H) (block : Nat) (dirty : Bool) : System H :=
  { system with
    references := Function.update system.references block (system.references block + 1)
    buffers := system.buffers ++ [block]
    buffersCount := system.buffersCount + 1 }.setHandle handle ⟨dirty, block, some block⟩

/-- The part of `rtems_rfs_buffer_handle_request` for a handle without buffer. -/
def attachBlock (handle : H) (block : Nat) (granted : Bool) : System H :=
  let dirty := (system.handle handle).dirty
  if system.buffersCount ≠ 0 ∧ block ∈ system.buffers then
    { system with
      buffers := scanChain system.buffers block
      buffersCount := system.buffersCount - 1 }.attach handle block dirty
  else if !system.noLocalCache ∧ system.releaseCount ≠ 0 ∧ block ∈ system.release then
    { system with
      release := scanChain system.release block
      releaseCount := system.releaseCount - 1 }.attach handle block dirty
  else if !system.noLocalCache ∧ system.releaseModifiedCount ≠ 0 ∧
      block ∈ system.releaseModified then
    { system with
      releaseModified := scanChain system.releaseModified block
      releaseModifiedCount := system.releaseModifiedCount - 1 }.attach handle block true
  else if granted then
    { system with held := Function.update system.held block true }.attach handle block dirty
  else system

/-- `rtems_rfs_buffer_handle_request`. -/
def handleRequest (handle : H) (block : Nat) (granted : Bool) : Option (System H) :=
  match (system.handle handle).buffer with
  | none => some (system.attachBlock handle block granted)
  | some _ =>
      if block ≠ 0 ∧ (system.handle handle).bnum = block then some system
      else
        match system.handleRelease handle with
        | none => none
        | some system =>
            some ((system.setHandle handle ⟨false, 0, none⟩).attachBlock handle block granted)

/-- `rtems_rfs_buffer_mark_dirty`. -/
def markDirty (handle : H) : System H :=
  let changed := system.setHandle handle { system.handle handle with dirty := true }
  match (system.handle handle).buffer with
  | none => changed
  | some block => { changed with marked := Function.update system.marked block true }

end

end System

/-- `rtems_rfs_release_chain`. -/
def releaseChain (modified : Bool) : List Nat → System H → System H
  | [], system => system
  | block :: rest, system => releaseChain modified rest (system.ioRelease block modified)

namespace System

/-- `rtems_rfs_buffers_release`. -/
def buffersRelease (system : System H) : System H :=
  let system := releaseChain false system.release
    { system with
      release := []
      releaseCount := system.releaseCount - system.release.length }
  releaseChain true system.releaseModified
    { system with
      releaseModified := []
      releaseModifiedCount := system.releaseModifiedCount - system.releaseModified.length }

variable [DecidableEq H]

/-- One call. -/
def step (system : System H) : Operation H → Option (System H)
  | .request handle block granted => system.handleRequest handle block granted
  | .markDirty handle => some (system.markDirty handle)
  | .release handle => system.handleRelease handle
  | .close handle => system.handleClose handle
  | .buffersRelease => some system.buffersRelease

end System

/-- No buffer is held. If released buffers are cached, at least one may be held. -/
structure Initial (system : System H) : Prop where
  cache : system.noLocalCache = true ∨ 0 < system.maxHeldBuffers
  handle : ∀ handle, system.handle handle = ⟨false, 0, none⟩
  references : ∀ block, system.references block = 0
  buffers : system.buffers = [] ∧ system.buffersCount = 0
  release : system.release = [] ∧ system.releaseCount = 0
  releaseModified : system.releaseModified = [] ∧ system.releaseModifiedCount = 0
  held : ∀ block, system.held block = false ∧ system.marked block = false
  returned : system.returned = []

/-- A handle that is the only dirty one of a buffer that was marked dirty does not leave it
to other handles. -/
def Keeps (system : System H) (handle : H) : Prop :=
  ∀ block, (system.handle handle).buffer = some block → system.marked block = true →
    (∃ other, other ≠ handle ∧ (system.handle other).buffer = some block) →
    ∃ other, other ≠ handle ∧ (system.handle other).buffer = some block ∧
      (system.handle other).dirty = true

/-- The handles that leave their buffer keep this rule. -/
def Careful (system : System H) : Operation H → Prop
  | .request handle block _ =>
      block ≠ 0 ∧ (system.handle handle).bnum = block ∨ Keeps system handle
  | .release handle => Keeps system handle
  | .close handle => Keeps system handle
  | _ => True

variable {block : Nat}

/-- A buffer of a chain is extracted. -/
theorem scanChain_perm {chain : List Nat} (mem : block ∈ chain) :
    chain.Perm (block :: scanChain chain block) := by
  have reversed : chain.reverse.Perm (block :: chain.reverse.erase block) :=
    List.perm_cons_erase (List.mem_reverse.mpr mem)
  exact ((List.reverse_perm chain).symm.trans reversed).trans
    ((List.reverse_perm (chain.reverse.erase block)).symm.cons block)

namespace System

variable [Fintype H]

/-- The handles that refer to a buffer. -/
def users (system : System H) (block : Nat) : Finset H :=
  univ.filter fun handle => (system.handle handle).buffer = some block

theorem mem_users (sys : System H) (block : Nat) (handle : H) :
    handle ∈ sys.users block ↔ (sys.handle handle).buffer = some block := by
  simp [users]

/-- All held buffers, with those that are on no chain. -/
def blocks (system : System H) (loose : List (Nat × Bool)) : List Nat :=
  system.buffers ++ system.release ++ system.releaseModified ++ loose.map Prod.fst

/-- The chains are consistent and no mark is lost. Within a call some buffers may be on no
chain; they come with the mark with which they will be released. -/
structure Sound (system : System H) (loose : List (Nat × Bool)) : Prop where
  cache : system.noLocalCache = true ∨ 0 < system.maxHeldBuffers
  direct : system.noLocalCache = true → system.release = [] ∧ system.releaseModified = []
  nodup : (system.blocks loose).Nodup
  held : ∀ block, system.held block = true ↔ block ∈ system.blocks loose
  buffersCount : system.buffersCount = system.buffers.length
  releaseCount : system.releaseCount = system.release.length
  releaseModifiedCount : system.releaseModifiedCount = system.releaseModified.length
  used : ∀ block, block ∈ system.buffers ↔ (system.users block).Nonempty
  references : ∀ block, system.references block = (system.users block).card
  bnum : ∀ handle block, (system.handle handle).buffer = some block →
    (system.handle handle).bnum = block
  marked : ∀ block, system.marked block = true → block ∈ system.releaseModified ∨
    (∃ handle ∈ system.users block, (system.handle handle).dirty = true) ∨ (block, true) ∈ loose
  returned : ∀ entry ∈ system.returned, entry.marked = true → entry.modified = true

namespace Sound

variable {sys : System H} {loose : List (Nat × Bool)}

variable {dirty : Bool}

section

variable (sound : sys.Sound ((block, dirty) :: loose))
include sound

/-- A loose buffer is on no chain and not loose twice. -/
theorem apart : block ∉ sys.buffers ∧ block ∉ sys.release ∧ block ∉ sys.releaseModified ∧
      block ∉ loose.map Prod.fst := by
  have nodup := sound.nodup
  unfold blocks at nodup
  rw [map_cons, List.nodup_middle, List.nodup_cons] at nodup
  have outside := nodup.1
  simp only [mem_append, not_or] at outside
  exact ⟨outside.1.1.1, outside.1.1.2, outside.1.2, outside.2⟩

theorem marked_loose (marked : sys.marked block = true) : dirty = true := by
  obtain ⟨buffers, -, modified, others⟩ := sound.apart
  rcases sound.marked block marked with mem | ⟨handle, user, -⟩ | mem
  · exact absurd mem modified
  · exact absurd ((sound.used block).mpr ⟨handle, user⟩) buffers
  · rcases mem_cons.mp mem with same | other
    · exact (Prod.mk.inj same).2.symm
    · exact absurd (List.mem_map_of_mem other) others

/-- A loose buffer is handed back. -/
theorem ioRelease : (sys.ioRelease block dirty).Sound loose := by
  obtain ⟨buffers, release, modified, others⟩ := sound.apart
  have outside : block ∉ sys.blocks loose := by simp [blocks, buffers, release, modified, others]
  have perm : (sys.blocks ((block, dirty) :: loose)).Perm (block :: sys.blocks loose) := by
    exact perm_middle
  refine { sound with nodup := ?_, held := ?_, marked := ?_, returned := ?_ }
  · exact (List.nodup_cons.mp (perm.nodup_iff.mp sound.nodup)).2
  · intro other
    simp only [System.ioRelease]
    by_cases same : other = block
    · subst same
      rw [update_self]
      simp only [Bool.false_eq_true, false_iff]
      exact outside
    · rw [update_of_ne same, sound.held, perm.mem_iff, mem_cons]
      simp only [same, false_or]
      rfl
  · intro other marked
    simp only [System.ioRelease] at marked
    by_cases same : other = block
    · subst same
      simp at marked
    · rw [update_of_ne same] at marked
      rcases sound.marked other marked with mem | user | mem
      · exact .inl mem
      · exact .inr (.inl user)
      · rcases mem_cons.mp mem with equal | mem
        · exact absurd (Prod.mk.inj equal).1 same
        · exact .inr (.inr mem)
  · intro entry mem mark
    rcases mem_cons.mp mem with rfl | old
    · exact sound.marked_loose mark
    · exact sound.returned entry old mark

end

/-- Released buffers change their chain or become loose. -/
theorem rearrange (sound : sys.Sound loose) (release releaseModified : List Nat)
    (releaseCount releaseModifiedCount : Nat) (more : List (Nat × Bool))
    (perm : (sys.release ++ sys.releaseModified ++ loose.map Prod.fst).Perm
      (release ++ releaseModified ++ more.map Prod.fst))
    (counts : releaseCount = release.length ∧ releaseModifiedCount = releaseModified.length)
    (direct : sys.noLocalCache = true → release = [] ∧ releaseModified = [])
    (marks : ∀ block, block ∈ sys.releaseModified ∨ (block, true) ∈ loose →
      block ∈ releaseModified ∨ (block, true) ∈ more) :
    Sound { sys with release, releaseCount, releaseModified, releaseModifiedCount } more := by
  have all : (sys.blocks loose).Perm
      (blocks { sys with release, releaseCount, releaseModified, releaseModifiedCount } more) := by
    unfold blocks
    simp only [append_assoc] at perm ⊢
    exact perm.append_left sys.buffers
  refine { sound with
    direct := ?_, nodup := ?_, held := ?_, releaseCount := ?_, releaseModifiedCount := ?_, marked := ?_ }
  · exact direct
  · exact all.nodup_iff.mp sound.nodup
  · intro block
    rw [← all.mem_iff]
    exact sound.held block
  · exact counts.1
  · exact counts.2
  · intro block marked
    rcases sound.marked block marked with mem | user | mem
    · rcases marks block (.inl mem) with chain | rest
      · exact .inl chain
      · exact .inr (.inr rest)
    · exact .inr (.inl user)
    · rcases marks block (.inr mem) with chain | rest
      · exact .inl chain
      · exact .inr (.inr rest)

/-- A buffer is extracted from the chain of released buffers. -/
theorem takeRelease (sound : sys.Sound loose) {rest : List Nat}
    (chain : sys.release.Perm (block :: rest)) :
    Sound { sys with release := rest, releaseCount := sys.releaseCount - 1 }
      ((block, false) :: loose) := by
  have length := chain.length_eq
  rw [length_cons] at length
  apply sound.rearrange rest sys.releaseModified (sys.releaseCount - 1) sys.releaseModifiedCount
  · simp only [append_assoc]
    refine (chain.append_right _).trans ?_
    rw [cons_append, ← append_assoc, ← append_assoc]
    exact perm_middle.symm
  · exact ⟨by rw [sound.releaseCount]; omega, sound.releaseModifiedCount⟩
  · intro direct
    have empty := (sound.direct direct).1
    rw [empty] at length
    simp at length
  · rintro other (mem | mem)
    · exact .inl mem
    · exact .inr (List.mem_cons_of_mem _ mem)

/-- A buffer is extracted from the chain of released modified buffers. -/
theorem takeReleaseModified (sound : sys.Sound loose) {rest : List Nat}
    (chain : sys.releaseModified.Perm (block :: rest)) :
    Sound { sys with
      releaseModified := rest
      releaseModifiedCount := sys.releaseModifiedCount - 1 } ((block, true) :: loose) := by
  have length := chain.length_eq
  rw [length_cons] at length
  apply sound.rearrange sys.release rest sys.releaseCount (sys.releaseModifiedCount - 1)
  · simp only [append_assoc]
    apply List.Perm.append_left
    refine (chain.append_right _).trans ?_
    exact perm_middle.symm
  · exact ⟨sound.releaseCount, by rw [sound.releaseModifiedCount]; omega⟩
  · intro direct
    have empty := (sound.direct direct).2
    rw [empty] at length
    simp at length
  · rintro other (mem | mem)
    · rcases mem_cons.mp (chain.mem_iff.mp mem) with rfl | mem
      · exact .inr (List.mem_cons_self ..)
      · exact .inl mem
    · exact .inr (List.mem_cons_of_mem _ mem)

/-- A loose buffer is released. -/
theorem putRelease (sound : sys.Sound ((block, dirty) :: loose))
    (cached : sys.noLocalCache = false) :
    if dirty then
      Sound { sys with
        releaseModified := sys.releaseModified ++ [block]
        releaseModifiedCount := sys.releaseModifiedCount + 1 } loose
    else
      Sound { sys with
        release := sys.release ++ [block]
        releaseCount := sys.releaseCount + 1 } loose := by
  cases dirty with
  | true =>
    apply sound.rearrange
    · simp only [append_assoc]
      exact .refl _
    · exact ⟨sound.releaseCount, by simp [sound.releaseModifiedCount]⟩
    · simp [cached]
    · rintro other (mem | mem)
      · exact .inl (List.mem_append_left _ mem)
      · rcases mem_cons.mp mem with equal | mem
        · rw [(Prod.mk.inj equal).1]
          exact .inl (List.mem_append_right _ (List.mem_singleton_self block))
        · exact .inr mem
  | false =>
    apply sound.rearrange
    · simp only [append_assoc]
      apply List.Perm.append_left
      exact perm_middle
    · exact ⟨by simp [sound.releaseCount], sound.releaseModifiedCount⟩
    · simp [cached]
    · rintro other (mem | mem)
      · exact .inl mem
      · rcases mem_cons.mp mem with equal | mem
        · exact absurd (Prod.mk.inj equal).2 (by simp)
        · exact .inr mem

/-- A cache with too many buffers is not empty. -/
theorem trim (sound : sys.Sound loose) (cached : sys.noLocalCache = false) :
    ∃ next, sys.trim = some next ∧ next.Sound loose ∧ next.noLocalCache = false ∧
      next.handle = sys.handle := by
  have limit : 0 < sys.maxHeldBuffers := by
    rcases sound.cache with direct | limit
    · rw [cached] at direct
      cases direct
    · exact limit
  have releaseCount := sound.releaseCount
  have modifiedCount := sound.releaseModifiedCount
  unfold System.trim
  split
  case isFalse => exact ⟨sys, rfl, sound, cached, rfl⟩
  case isTrue full =>
    split
    case isTrue more =>
      cases chain : sys.release with
      | nil =>
        rw [chain] at releaseCount
        simp at releaseCount
        omega
      | cons block rest =>
        exact ⟨_, rfl, (sound.takeRelease (by rw [chain])).ioRelease, cached, rfl⟩
    case isFalse more =>
      cases chain : sys.releaseModified with
      | nil =>
        rw [chain] at modifiedCount
        simp at modifiedCount
        omega
      | cons block rest =>
        exact ⟨_, rfl, (sound.takeReleaseModified (by rw [chain])).ioRelease, cached, rfl⟩


variable [DecidableEq H]

theorem users_setHandle (sys : System H) (handle : H) (value : Handle) (block : Nat) :
    (sys.setHandle handle value).users block =
      if value.buffer = some block then insert handle (sys.users block)
      else (sys.users block).erase handle := by
  ext other
  rw [mem_users, setHandle]
  by_cases same : other = handle
  · subst same
    split
    case isTrue own => simp [own]
    case isFalse own => simp [own]
  · split <;> simp [mem_users, same]

/-- The users of the buffers after a handle has lost its buffer. -/
theorem users_detach (sys : System H) (handle : H) (block other : Nat) :
    (sys.detach handle block).users other = (sys.users other).erase handle := by
  have lost := users_setHandle { sys with
    references := update sys.references block (sys.references block - 1) }
    handle { sys.handle handle with buffer := none } other
  exact lost

variable {handle : H}

/-- The references of the buffers after a handle has lost its buffer. -/
theorem references_detach (sound : sys.Sound loose)
    (own : (sys.handle handle).buffer = some block) (other : Nat) :
    (sys.detach handle block).references other = ((sys.detach handle block).users other).card := by
  rw [users_detach]
  simp only [System.detach, setHandle]
  by_cases same : other = block
  · subst same
    rw [update_self, sound.references, Finset.card_erase_of_mem]
    exact (mem_users _ _ _).mpr own
  · rw [update_of_ne same, sound.references, erase_eq_of_notMem]
    rw [mem_users, own]
    simpa using Ne.symm same

/-- A handle without buffer has no number to keep. -/
theorem bnum_setHandle (sound : sys.Sound loose) (handle : H) (value : Handle)
    (number : ∀ block, value.buffer = some block → value.bnum = block) (other : H) (block : Nat)
    (attached : ((sys.setHandle handle value).handle other).buffer = some block) :
    ((sys.setHandle handle value).handle other).bnum = block := by
  simp only [setHandle] at attached ⊢
  by_cases same : other = handle
  · subst same
    rw [update_self] at attached ⊢
    exact number block attached
  · rw [update_of_ne same] at attached ⊢
    exact sound.bnum other block attached

/-- A handle leaves its buffer to other handles. -/
theorem detach_shared (sound : sys.Sound []) (own : (sys.handle handle).buffer = some block)
    (keeps : Keeps sys handle) (shared : (sys.detach handle block).references block ≠ 0) :
    (sys.detach handle block).Sound [] := by
  have references := references_detach sound own
  have rest : ((sys.users block).erase handle).Nonempty := by
    rw [references, users_detach] at shared
    exact Finset.card_ne_zero.mp shared
  refine { sound with used := ?_, references := ?_, bnum := ?_, marked := ?_ }
  · intro other
    rw [users_detach]
    by_cases same : other = block
    · subst same
      simp only [rest, iff_true]
      exact (sound.used other).mpr ⟨handle, (mem_users _ _ _).mpr own⟩
    · rw [erase_eq_of_notMem]
      · exact sound.used other
      · rw [mem_users, own]
        simpa using Ne.symm same
  · exact references
  · exact sound.bnum_setHandle handle _ (by simp)
  · intro other marked
    rcases sound.marked other marked with mem | ⟨user, uses, dirty⟩ | mem
    · exact .inl mem
    · right
      left
      by_cases same : user = handle
      · subst same
        obtain rfl : other = block := by
          rw [mem_users, own] at uses
          exact (Option.some.inj uses).symm
        obtain ⟨second, mem⟩ := rest
        rw [mem_erase, mem_users] at mem
        obtain ⟨third, apart, uses, dirty⟩ := keeps other own marked ⟨second, mem⟩
        refine ⟨third, ?_, ?_⟩
        · rw [users_detach, mem_erase, mem_users]
          exact ⟨apart, uses⟩
        · simpa [System.detach, setHandle, update_of_ne apart] using dirty
      · refine ⟨user, ?_, ?_⟩
        · rw [users_detach, mem_erase]
          exact ⟨same, uses⟩
        · simpa [System.detach, setHandle, update_of_ne same] using dirty
    · cases mem

/-- The last handle leaves a buffer. -/
theorem detach_last (sound : sys.Sound []) (own : (sys.handle handle).buffer = some block)
    (last : (sys.detach handle block).references block = 0) :
    Sound { sys.detach handle block with
      buffers := sys.buffers.erase block
      buffersCount := sys.buffersCount - 1 } [(block, (sys.handle handle).dirty)] := by
  have references := references_detach sound own
  have rest : (sys.users block).erase handle = ∅ := by
    rw [references, users_detach] at last
    exact Finset.card_eq_zero.mp last
  have mem : block ∈ sys.buffers := (sound.used block).mpr ⟨handle, (mem_users _ _ _).mpr own⟩
  have perm : (sys.blocks []).Perm (blocks { sys.detach handle block with
        buffers := sys.buffers.erase block
        buffersCount := sys.buffersCount - 1 } [(block, (sys.handle handle).dirty)]) := by
    unfold blocks
    simp only [map_nil, append_nil, append_assoc]
    refine ((List.perm_cons_erase mem).append_right _).trans ?_
    rw [cons_append, ← append_assoc, ← append_assoc, ← append_assoc]
    exact (List.perm_append_singleton _ _).symm
  have others : ∀ user other, user ≠ handle → (user ∈ sys.users other ↔
      user ∈ (sys.detach handle block).users other) := by
    intro user other apart
    rw [users_detach, mem_erase]
    simp [apart]
  refine { sound with
    nodup := perm.nodup_iff.mp sound.nodup
    held := fun other => (sound.held other).trans perm.mem_iff
    buffersCount := ?_, used := ?_, references := ?_, bnum := ?_, marked := ?_ }
  · simp only [sound.buffersCount, List.length_erase_of_mem mem]
  · intro other
    have nodup : sys.buffers.Nodup := by
      have all := sound.nodup
      unfold blocks at all
      simp only [append_assoc] at all
      exact (List.nodup_append.mp all).1
    show other ∈ sys.buffers.erase block ↔ ((sys.detach handle block).users other).Nonempty
    rw [users_detach]
    by_cases same : other = block
    · subst same
      rw [rest]
      simp [nodup.not_mem_erase]
    · rw [List.mem_erase_of_ne same, erase_eq_of_notMem, sound.used]
      rw [mem_users, own]
      simpa using Ne.symm same
  · exact references
  · exact sound.bnum_setHandle handle _ (by simp)
  · intro other marked
    rcases sound.marked other marked with mem | ⟨user, uses, dirty⟩ | mem
    · exact .inl mem
    · right
      by_cases same : user = handle
      · subst same
        right
        rw [mem_users, own] at uses
        rw [← Option.some.inj uses, dirty]
        exact List.mem_singleton_self _
      · left
        refine ⟨user, (others user other same).mp uses, ?_⟩
        simpa [System.detach, setHandle, update_of_ne same] using dirty
    · cases mem


/-- The users of the buffers after a handle without buffer has got one. -/
theorem users_attach (sys : System H) (free : (sys.handle handle).buffer = none)
    (block : Nat) (dirty : Bool) (other : Nat) :
    (sys.attach handle block dirty).users other =
      if other = block then insert handle (sys.users other) else sys.users other := by
  have attached := users_setHandle { sys with
    references := update sys.references block (sys.references block + 1)
    buffers := sys.buffers ++ [block]
    buffersCount := sys.buffersCount + 1 } handle ⟨dirty, block, some block⟩ other
  have outside : handle ∉ sys.users other := by
    rw [mem_users, free]
    simp
  by_cases same : other = block
  · subst same
    rw [if_pos rfl] at attached ⊢
    exact attached
  · rw [if_neg (by simpa using Ne.symm same)] at attached
    rw [if_neg same]
    exact attached.trans (erase_eq_of_notMem outside)

theorem references_attach (sound : sys.Sound loose)
    (free : (sys.handle handle).buffer = none) (block : Nat) (dirty : Bool) (other : Nat) :
    (sys.attach handle block dirty).references other =
      ((sys.attach handle block dirty).users other).card := by
  rw [users_attach sys free]
  simp only [System.attach, setHandle]
  by_cases same : other = block
  · subst same
    rw [update_self, if_pos rfl, Finset.card_insert_of_notMem, sound.references]
    rw [mem_users, free]
    simp
  · rw [update_of_ne same, if_neg same, sound.references]

/-- The marks after a handle without buffer has got one. -/
theorem marked_attach (free : (sys.handle handle).buffer = none) (block : Nat)
    (dirty : Bool) {user : H} {other : Nat} (uses : user ∈ sys.users other)
    (mark : (sys.handle user).dirty = true) :
    ∃ user ∈ (sys.attach handle block dirty).users other,
      ((sys.attach handle block dirty).handle user).dirty = true := by
  have apart : user ≠ handle := by
    rintro rfl
    rw [mem_users, free] at uses
    cases uses
  refine ⟨user, ?_, ?_⟩
  · rw [users_attach sys free]
    split
    · exact Finset.mem_insert_of_mem uses
    · exact uses
  · simpa [System.attach, setHandle, update_of_ne apart] using mark

/-- A loose buffer is attached to a handle. -/
theorem attach {mark : Bool} (sound : sys.Sound [(block, mark)])
    (free : (sys.handle handle).buffer = none) (dirty : Bool) (kept : mark = true → dirty = true) :
    (sys.attach handle block dirty).Sound [] := by
  have own : handle ∈ (sys.attach handle block dirty).users block := by
    rw [users_attach sys free, if_pos rfl]
    exact Finset.mem_insert_self ..
  have perm : (sys.blocks [(block, mark)]).Perm ((sys.attach handle block dirty).blocks []) := by
    unfold blocks
    simp only [System.attach, setHandle, map_nil, append_nil, append_assoc]
    apply List.Perm.append_left
    rw [← append_assoc]
    exact List.perm_append_comm
  refine { sound with
    nodup := perm.nodup_iff.mp sound.nodup
    held := fun other => (sound.held other).trans perm.mem_iff
    buffersCount := ?_, used := ?_, references := ?_, bnum := ?_, marked := ?_ }
  · simp [System.attach, setHandle, sound.buffersCount]
  · intro other
    rw [users_attach sys free]
    simp only [System.attach, setHandle]
    by_cases same : other = block
    · simp [same]
    · rw [if_neg same, ← sound.used]
      simp [same]
  · exact references_attach sound free block dirty
  · exact sound.bnum_setHandle handle _ (by simp)
  · intro other marked
    rcases sound.marked other marked with mem | ⟨user, uses, mark⟩ | mem
    · exact .inl mem
    · exact .inr (.inl (marked_attach free block dirty uses mark))
    · obtain ⟨rfl, loaded⟩ := Prod.mk.inj (mem_singleton.mp mem)
      refine .inr (.inl ⟨handle, own, ?_⟩)
      simp [System.attach, setHandle, kept loaded.symm]

/-- A handle shares a buffer of other handles. -/
theorem share (sound : sys.Sound []) (mem : block ∈ sys.buffers)
    (free : (sys.handle handle).buffer = none) (dirty : Bool) :
    (System.attach { sys with
      buffers := scanChain sys.buffers block
      buffersCount := sys.buffersCount - 1 } handle block dirty).Sound [] := by
  have chain := scanChain_perm mem
  have length := chain.length_eq
  rw [length_cons] at length
  have buffers : sys.buffers.Perm (scanChain sys.buffers block ++ [block]) :=
    chain.trans (List.perm_append_singleton _ _).symm
  have same : (System.attach { sys with
      buffers := scanChain sys.buffers block
      buffersCount := sys.buffersCount - 1 } handle block dirty) =
      { sys.attach handle block dirty with
        buffers := scanChain sys.buffers block ++ [block]
        buffersCount := sys.buffersCount - 1 + 1 } := rfl
  rw [same]
  have perm : (sys.blocks []).Perm (blocks { sys.attach handle block dirty with
      buffers := scanChain sys.buffers block ++ [block]
      buffersCount := sys.buffersCount - 1 + 1 } []) := by
    unfold blocks
    simp only [map_nil, append_nil, append_assoc]
    simp only [← append_assoc]
    exact (buffers.append_right _).append_right _
  refine { sound with
    nodup := perm.nodup_iff.mp sound.nodup
    held := fun other => (sound.held other).trans perm.mem_iff
    buffersCount := ?_, used := ?_, references := ?_, bnum := ?_, marked := ?_ }
  · simp only [List.length_append, List.length_singleton, sound.buffersCount]
    omega
  · intro other
    show other ∈ scanChain sys.buffers block ++ [block] ↔
      ((sys.attach handle block dirty).users other).Nonempty
    rw [users_attach sys free, ← buffers.mem_iff, sound.used]
    by_cases own : other = block
    · subst own
      simp [(sound.used other).mp mem]
    · rw [if_neg own]
  · exact references_attach sound free block dirty
  · exact sound.bnum_setHandle handle _ (by simp)
  · intro other marked
    rcases sound.marked other marked with modified | ⟨user, uses, mark⟩ | impossible
    · exact .inl modified
    · exact .inr (.inl (marked_attach free block dirty uses mark))
    · cases impossible

omit [DecidableEq H] in
/-- A buffer is obtained from the block device layer. -/
theorem grant (sound : sys.Sound []) (unheld : block ∉ sys.blocks []) :
    Sound { sys with held := update sys.held block true } [(block, false)] := by
  have extended : blocks { sys with held := update sys.held block true }
      [(block, false)] = sys.blocks [] ++ [block] := by
    simp [blocks]
  refine { sound with nodup := ?_, held := ?_, marked := ?_ }
  · rw [extended]
    exact List.nodup_append.mpr ⟨sound.nodup, List.nodup_singleton block, by
      rintro other mem single last rfl
      rw [mem_singleton.mp last] at mem
      exact unheld mem⟩
  · intro other
    rw [extended, mem_append, mem_singleton, ← sound.held]
    by_cases same : other = block
    · simp [same]
    · simp [same]
  · intro other marked
    rcases sound.marked other marked with mem | user | mem
    · exact .inl mem
    · exact .inr (.inl user)
    · cases mem

section

variable (sound : sys.Sound [])
include sound

/-- A handle without buffer changes its mark and its number. -/
theorem resetHandle (free : (sys.handle handle).buffer = none)
    (dirty : Bool) (bnum : Nat) : (sys.setHandle handle ⟨dirty, bnum, none⟩).Sound [] := by
  have users : ∀ block, (sys.setHandle handle ⟨dirty, bnum, none⟩).users block =
      sys.users block := by
    intro block
    rw [users_setHandle, if_neg (by simp), erase_eq_of_notMem]
    rw [mem_users, free]
    simp
  refine { sound with used := ?_, references := ?_, bnum := ?_, marked := ?_ }
  · intro block
    rw [users]
    exact sound.used block
  · intro block
    rw [users]
    exact sound.references block
  · exact sound.bnum_setHandle handle _ (by simp)
  · intro block marked
    rcases sound.marked block marked with mem | ⟨user, uses, mark⟩ | mem
    · exact .inl mem
    · refine .inr (.inl ⟨user, by rw [users]; exact uses, ?_⟩)
      have apart : user ≠ handle := by
        rintro rfl
        rw [mem_users, free] at uses
        cases uses
      simpa [setHandle, update_of_ne apart] using mark
    · cases mem


/-- `rtems_rfs_buffer_handle_release` by a handle that does not lose a mark. -/
theorem handleRelease (keeps : Keeps sys handle) :
    ∃ next, sys.handleRelease handle = some next ∧ next.Sound [] ∧
      (next.handle handle).buffer = none := by
  unfold System.handleRelease
  cases own : (sys.handle handle).buffer with
  | none => exact ⟨sys, rfl, sound, own⟩
  | some block =>
    have free : ((sys.detach handle block).handle handle).buffer = none := by
      simp [System.detach, setHandle]
    simp only
    split
    case isFalse shared =>
      exact ⟨sys.detach handle block, rfl, sound.detach_shared own keeps shared, free⟩
    case isTrue last =>
      have alone := sound.detach_last own last
      unfold System.retire
      simp only
      split
      case isTrue => exact ⟨_, rfl, alone.ioRelease, free⟩
      case isFalse cached =>
        obtain ⟨next, trimmed, kept, local_, handles⟩ := alone.trim (by simpa using cached)
        have put := kept.putRelease local_
        rw [show System.trim { sys.detach handle block with
          buffers := (sys.detach handle block).buffers.erase block
          buffersCount := (sys.detach handle block).buffersCount - 1 } = some next from trimmed]
        simp only
        split at put
        case isTrue dirty =>
          rw [if_pos dirty]
          exact ⟨_, rfl, put, by simpa [handles] using free⟩
        case isFalse clean =>
          rw [if_neg clean]
          exact ⟨_, rfl, put, by simpa [handles] using free⟩

/-- `rtems_rfs_buffer_handle_close`. -/
theorem handleClose (keeps : Keeps sys handle) :
    ∃ next, sys.handleClose handle = some next ∧ next.Sound [] := by
  obtain ⟨next, released, kept, free⟩ := sound.handleRelease keeps
  refine ⟨_, ?_, kept.resetHandle free false 0⟩
  rw [System.handleClose, released]

/-- The request of a handle without buffer. -/
theorem attachBlock (free : (sys.handle handle).buffer = none)
    (block : Nat) (granted : Bool) : (sys.attachBlock handle block granted).Sound [] := by
  have buffersCount := sound.buffersCount
  have releaseCount := sound.releaseCount
  have modifiedCount := sound.releaseModifiedCount
  unfold System.attachBlock
  split
  case isTrue found => exact sound.share found.2 free _
  case isFalse active =>
    split
    case isTrue found =>
      exact (sound.takeRelease (scanChain_perm found.2.2)).attach free _ (by simp)
    case isFalse released =>
      split
      case isTrue found =>
        exact (sound.takeReleaseModified (scanChain_perm found.2.2)).attach free true (by simp)
      case isFalse modified =>
        split
        case isFalse => exact sound
        case isTrue =>
          refine (sound.grant ?_).attach free _ (by simp)
          -- a mem makes the count of its chain positive
          have counted : ∀ (chain : List Nat) (count : Nat), count = chain.length →
              block ∈ chain → count ≠ 0 := by
            rintro chain count rfl mem
            exact List.length_eq_zero_iff.not.mpr (List.ne_nil_of_mem mem)
          intro mem
          simp only [blocks, map_nil, append_nil, mem_append] at mem
          cases direct : sys.noLocalCache with
          | true =>
            obtain ⟨noRelease, noModified⟩ := sound.direct direct
            rcases mem with (mem | mem) | mem
            · exact active ⟨counted _ _ buffersCount mem, mem⟩
            · rw [noRelease] at mem
              cases mem
            · rw [noModified] at mem
              cases mem
          | false =>
            rcases mem with (mem | mem) | mem
            · exact active ⟨counted _ _ buffersCount mem, mem⟩
            · exact released ⟨by simp [direct], counted _ _ releaseCount mem, mem⟩
            · exact modified ⟨by simp [direct], counted _ _ modifiedCount mem, mem⟩

/-- `rtems_rfs_buffer_handle_request`. -/
theorem handleRequest (block : Nat) (granted : Bool)
    (keeps : block ≠ 0 ∧ (sys.handle handle).bnum = block ∨ Keeps sys handle) :
    ∃ next, sys.handleRequest handle block granted = some next ∧ next.Sound [] := by
  unfold System.handleRequest
  cases own : (sys.handle handle).buffer with
  | none => exact ⟨_, rfl, sound.attachBlock own block granted⟩
  | some _ =>
    simp only
    split
    case isTrue => exact ⟨sys, rfl, sound⟩
    case isFalse other =>
      obtain ⟨next, released, kept, free⟩ := sound.handleRelease (keeps.resolve_left other)
      rw [released]
      exact ⟨_, rfl, (kept.resetHandle free false 0).attachBlock
        (by simp [setHandle]) block granted⟩

/-- `rtems_rfs_buffer_mark_dirty`. -/
theorem markDirty (handle : H) : (sys.markDirty handle).Sound [] := by
  unfold System.markDirty
  cases own : (sys.handle handle).buffer with
  | none =>
    have kept := sound.resetHandle own true (sys.handle handle).bnum
    rw [← own] at kept
    exact kept
  | some block =>
    have users : ∀ other, ((sys.setHandle handle
        { sys.handle handle with dirty := true }).users other) = sys.users other := by
      intro other
      rw [users_setHandle]
      split
      case isTrue attached => exact Finset.insert_eq_of_mem ((mem_users _ _ _).mpr attached)
      case isFalse apart =>
        exact erase_eq_of_notMem (fun uses => apart ((mem_users _ _ _).mp uses))
    refine { sound with used := ?_, references := ?_, bnum := ?_, marked := ?_ }
    · intro other
      exact (users other) ▸ sound.used other
    · intro other
      exact (users other) ▸ sound.references other
    · exact sound.bnum_setHandle handle _ (fun block attached => sound.bnum handle block attached)
    · intro other marked
      have dirty : ∀ user, (sys.handle user).dirty = true →
          ((sys.setHandle handle { sys.handle handle with dirty := true }).handle user).dirty =
            true := by
        intro user mark
        by_cases same : user = handle
        · simp [setHandle, same]
        · simpa [setHandle, update_of_ne same] using mark
      by_cases same : other = block
      · subst same
        refine .inr (.inl ⟨handle, ?_, by simp [setHandle]⟩)
        exact (users other) ▸ (mem_users _ _ _).mpr own
      · simp only [update_of_ne same] at marked
        rcases sound.marked other marked with mem | ⟨user, uses, mark⟩ | mem
        · exact .inl mem
        · exact .inr (.inl ⟨user, (users other) ▸ uses, dirty user mark⟩)
        · cases mem

end

omit [DecidableEq H] in
/-- `rtems_rfs_release_chain` of buffers that were extracted. -/
theorem releaseChain (modified : Bool) (chain : List Nat)
    (sound : sys.Sound (chain.map (·, modified) ++ loose)) :
    (releaseChain modified chain sys).Sound loose := by
  induction chain generalizing sys with
  | nil => exact sound
  | cons block rest ih =>
    rw [Buffer.releaseChain]
    exact ih sound.ioRelease

omit [Fintype H] [DecidableEq H] in
/-- Handing buffers back leaves the chains and the handles alone. -/
theorem releaseChain_frame (modified : Bool) (chain : List Nat) (sys : System H) :
    (Buffer.releaseChain modified chain sys).release = sys.release ∧
      (Buffer.releaseChain modified chain sys).releaseModified = sys.releaseModified ∧
      (Buffer.releaseChain modified chain sys).handle = sys.handle := by
  induction chain generalizing sys with
  | nil => exact ⟨rfl, rfl, rfl⟩
  | cons block rest ih =>
    rw [Buffer.releaseChain]
    exact ih _

omit [DecidableEq H] in
/-- `rtems_rfs_buffers_release`: a mark that is left belongs to a buffer of a handle. -/
theorem buffersRelease (sound : sys.Sound []) :
    sys.buffersRelease.Sound [] ∧ ∀ block, sys.buffersRelease.marked block = true →
      ∃ handle, (sys.handle handle).buffer = some block := by
  have first : (Buffer.releaseChain false sys.release { sys with
      release := []
      releaseCount := sys.releaseCount - sys.release.length }).Sound [] := by
    apply releaseChain
    rw [append_nil]
    apply sound.rearrange
    · simp only [map_nil, append_nil, List.nil_append, map_map]
      have names : sys.release.map (Prod.fst ∘ (·, false)) = sys.release := by
        simp [comp_def]
      rw [names]
      exact List.perm_append_comm
    · exact ⟨by simp [sound.releaseCount], sound.releaseModifiedCount⟩
    · exact fun direct => ⟨rfl, (sound.direct direct).2⟩
    · rintro block (mem | impossible)
      · exact .inl mem
      · cases impossible
  unfold System.buffersRelease
  simp only
  generalize cleaned : Buffer.releaseChain false sys.release _ = rest at first ⊢
  have frame := releaseChain_frame false sys.release { sys with
      release := []
      releaseCount := sys.releaseCount - sys.release.length }
  rw [cleaned] at frame
  have second : (Buffer.releaseChain true rest.releaseModified { rest with
      releaseModified := []
      releaseModifiedCount := rest.releaseModifiedCount - rest.releaseModified.length }).Sound [] := by
    apply releaseChain
    rw [append_nil]
    apply first.rearrange
    · simp only [map_nil, append_nil, map_map]
      have names : rest.releaseModified.map (Prod.fst ∘ (·, true)) = rest.releaseModified := by
        simp [comp_def]
      rw [names]
    · exact ⟨first.releaseCount, by simp [first.releaseModifiedCount]⟩
    · exact fun direct => ⟨(first.direct direct).1, rfl⟩
    · rintro block (mem | impossible)
      · exact .inr (List.mem_map_of_mem mem)
      · cases impossible
  refine ⟨second, ?_⟩
  intro block marked
  have last := releaseChain_frame true rest.releaseModified { rest with
      releaseModified := []
      releaseModifiedCount := rest.releaseModifiedCount - rest.releaseModified.length }
  rcases second.marked block marked with mem | ⟨handle, uses, -⟩ | impossible
  · rw [last.2.1] at mem
    cases mem
  · rw [mem_users, last.2.2] at uses
    exact ⟨handle, frame.2.2 ▸ uses⟩
  · cases impossible

/-- A careful call returns and keeps the buffers sound. -/
theorem step (sound : sys.Sound []) (op : Operation H) (careful : Careful sys op) :
    ∃ next, sys.step op = some next ∧ next.Sound [] := by
  cases op with
  | request handle block granted => exact sound.handleRequest block granted careful
  | markDirty handle => exact ⟨_, rfl, sound.markDirty handle⟩
  | release handle =>
    obtain ⟨next, released, kept, -⟩ := sound.handleRelease careful
    exact ⟨next, released, kept⟩
  | close handle => exact sound.handleClose careful
  | buffersRelease => exact ⟨_, rfl, sound.buffersRelease.1⟩


end Sound
end System
variable [Fintype H] [DecidableEq H]

omit [DecidableEq H] in
theorem Initial.sound {sys : System H} (initial : Initial sys) : sys.Sound [] := by
  have nobody : ∀ block, sys.users block = ∅ := by
    intro block
    ext handle
    simp [System.mem_users, initial.handle handle]
  obtain ⟨buffers, buffersCount⟩ := initial.buffers
  obtain ⟨release, releaseCount⟩ := initial.release
  obtain ⟨modified, modifiedCount⟩ := initial.releaseModified
  constructor
  · exact initial.cache
  · exact fun _ => ⟨release, modified⟩
  · simp [System.blocks, buffers, release, modified]
  · simp [System.blocks, buffers, release, modified, initial.held]
  · simp [buffers, buffersCount]
  · simp [release, releaseCount]
  · simp [modified, modifiedCount]
  · simp [buffers, nobody]
  · simp [nobody, initial.references]
  · simp [initial.handle]
  · simp [initial.held]
  · simp [initial.returned]

/-- Over every run in which the only dirty handle of a marked buffer does not leave it to
other handles: a buffer is held exactly if it is on one of the chains and then on exactly
one of them, the counts are the lengths of the chains, a buffer is attached exactly if it
has references, which are its handles, no marked buffer was handed back as clean, a marked
buffer is on the chain of modified buffers or has a dirty handle, the release of the chained
buffers hands back all marked buffers without handles, and the next careful call returns. -/
theorem runs_keep_modifications (past : List (System H)) (system : System H)
    (run : Trace Initial Careful System.step past system) :
    (system.buffers ++ system.release ++ system.releaseModified).Nodup ∧
    (∀ block, system.held block = true ↔
      block ∈ system.buffers ++ system.release ++ system.releaseModified) ∧
    (system.buffersCount = system.buffers.length ∧ system.releaseCount = system.release.length ∧
      system.releaseModifiedCount = system.releaseModified.length) ∧
    (∀ block, (block ∈ system.buffers ↔ 0 < system.references block) ∧
      system.references block = (univ.filter fun handle =>
        (system.handle handle).buffer = some block).card) ∧
    (∀ entry ∈ system.returned, entry.marked = true → entry.modified = true) ∧
    (∀ block, system.marked block = true → block ∈ system.releaseModified ∨
      ∃ handle, (system.handle handle).buffer = some block ∧ (system.handle handle).dirty = true) ∧
    (∀ block, system.buffersRelease.marked block = true →
      ∃ handle, (system.handle handle).buffer = some block) ∧
    ∀ operation, Careful system operation → (system.step operation).isSome := by
  have sound : system.Sound [] := run.invariant (fun system => system.Sound [])
    (fun _ initial => initial.sound) (by
      intro system operation next sound careful taken
      obtain ⟨result, stepped, kept⟩ := sound.step operation careful
      rw [stepped] at taken
      exact Option.some.inj taken ▸ kept)
  have chains : system.blocks [] = system.buffers ++ system.release ++ system.releaseModified := by
    simp [System.blocks]
  refine ⟨chains ▸ sound.nodup, chains ▸ sound.held,
    ⟨sound.buffersCount, sound.releaseCount, sound.releaseModifiedCount⟩, ?_, sound.returned, ?_,
    sound.buffersRelease.2, ?_⟩
  · intro block
    refine ⟨?_, sound.references block⟩
    rw [sound.used, sound.references, Finset.card_pos]
  · intro block marked
    rcases sound.marked block marked with member | ⟨handle, uses, dirty⟩ | impossible
    · exact .inl member
    · exact .inr ⟨handle, (System.mem_users _ _ _).mp uses, dirty⟩
    · cases impossible
  · intro operation careful
    obtain ⟨next, stepped, -⟩ := sound.step operation careful
    rw [stepped]
    rfl

instance (system : System H) (handle : H) : Decidable (Keeps system handle) :=
  match own : (system.handle handle).buffer with
  | none => isTrue (by
      intro block attached
      rw [own] at attached
      cases attached)
  | some block =>
      decidable_of_iff (system.marked block = true →
        (∃ other, other ≠ handle ∧ (system.handle other).buffer = some block) →
        ∃ other, other ≠ handle ∧ (system.handle other).buffer = some block ∧
          (system.handle other).dirty = true) (by
        unfold Keeps
        rw [own]
        simp)

instance (system : System H) (operation : Operation H) : Decidable (Careful system operation) :=
  match operation with
  | .request .. => inferInstanceAs (Decidable (_ ∨ _))
  | .release handle | .close handle => inferInstanceAs (Decidable (Keeps system handle))
  | .markDirty _ | .buffersRelease => .isTrue trivial

/-- Two opened handles, and a cache of one released buffer. -/
def start : System (Fin 2) where
  noLocalCache := false
  maxHeldBuffers := 1
  handle := fun _ => ⟨false, 0, none⟩
  references := fun _ => 0
  buffers := []
  buffersCount := 0
  release := []
  releaseCount := 0
  releaseModified := []
  releaseModifiedCount := 0
  held := fun _ => false
  marked := fun _ => false
  returned := []

theorem start_initial : Initial start := by
  constructor
  · exact .inr Nat.one_pos
  · exact fun _ => rfl
  · exact fun _ => rfl
  · exact ⟨rfl, rfl⟩
  · exact ⟨rfl, rfl⟩
  · exact ⟨rfl, rfl⟩
  · exact fun _ => ⟨rfl, rfl⟩
  · rfl

/-- A shared buffer is marked by the handle that releases it last. It is revived from the
chain of modified buffers, released again and pushed out by the next released buffer. -/
theorem runs_keep_modifications_revived :
    ∃ (past : List (System (Fin 2))) (system : System (Fin 2)),
      Trace Initial Careful System.step past system ∧
      system.returned = [⟨7, true, true⟩] ∧ system.release = [8] ∧
      (system.buffers ++ system.release ++ system.releaseModified).Nodup ∧
      ∀ entry ∈ system.returned, entry.marked = true → entry.modified = true := by
  obtain ⟨past, system, run, seen⟩ := Trace.observe Careful System.step start start_initial
    [.request 0 7 true, .request 1 7 true, .markDirty 1, .release 0, .release 1, .request 0 7 true,
      .close 0, .request 0 8 true, .release 0]
    (fun system => (system.returned, system.release)) ([⟨7, true, true⟩], [8])
    (by decide +kernel) (by decide +kernel)
  obtain ⟨returned, release⟩ := Prod.mk.inj seen
  obtain ⟨nodup, -, -, -, kept, -⟩ := runs_keep_modifications past system run
  exact ⟨past, system, run, returned, release, nodup, kept⟩

/-- The handle that marked a shared buffer releases it first: the buffer is handed back as
clean. -/
theorem modification_lost :
    ∃ (past : List (System (Fin 2))) (system : System (Fin 2)),
      Trace Initial (fun _ _ => True) System.step past system ∧ system.returned = [⟨7, false, true⟩] := by
  exact Trace.observe (fun _ _ => True) System.step start start_initial
    [.request 0 7 true, .request 1 7 true, .markDirty 0, .release 0, .release 1, .buffersRelease]
    (fun system => system.returned) [⟨7, false, true⟩] (by decide +kernel) (by decide +kernel)

end Rtems.Rfs.Buffer
