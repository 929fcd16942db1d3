import Rtems.Library.Ownership
import Rtems.Library.Transition

/-!
# Open files and their blocks

The map of a file is kept in its inode and, while the file is open, in the part that its
handles share. Writes and truncations change the shared map only; the last close writes it
to the inode. A file that is unlinked is deleted with the blocks that the inode has, open
or not.

A map is the list of its data blocks with the blocks of its tables. Which tables it needs
and which blocks are allocated is told from outside. Files have one name.
-/

namespace Rtems.Rfs.OpenFile

open Ownership
open Option (map_eq_some_iff)
open Transition
open Function (update update_eq_self update_of_ne update_self)

/-- The data blocks and the indirect blocks of a map. -/
structure Map where
  data : List Nat
  tables : List Nat
deriving DecidableEq

/-- All blocks of a map. -/
def Map.blocks (map : Map) : List Nat := map.data ++ map.tables

/-- The map of a node without blocks. -/
def Map.empty : Map := ⟨[], []⟩

/-- `rtems_rfs_block_map_grow`, with the blocks that were allocated. -/
def Map.grow (map : Map) (data tables : List Nat) : Map :=
  ⟨map.data ++ data, map.tables ++ tables⟩

/-- `rtems_rfs_block_map_shrink` to a number of data blocks and the tables that are still
needed. -/
def Map.shrink (map : Map) (count : Nat) (needed : List Nat) : Map :=
  ⟨map.data.take count, map.tables.filter fun table => decide (table ∈ needed)⟩

/-- The blocks that `rtems_rfs_block_map_shrink` frees. -/
def Map.cut (map : Map) (count : Nat) (needed : List Nat) : List Nat :=
  map.data.drop count ++ map.tables.filter fun table => !decide (table ∈ needed)

/-- `rtems_rfs_file_shared`. -/
structure Shared where
  map : Map
  dirty : Bool
  references : Nat

/-- The bitmaps of the groups, the maps in the inodes, and the shared parts of open files
by their inodes. -/
structure State where
  bitmap : Nat → Bool
  inodes : Nat → Bool
  stored : Nat → Map
  shares : Nat → Option Shared

/-- The inode of the directory. -/
def rootIno : Nat := 1

section

variable (state : State) (ino : Nat)

/-- Store the map of an inode. -/
def store (map : Map) : State := { state with stored := Function.update state.stored ino map }

/-- Set the shared part of a file. -/
def share (shared : Option Shared) : State :=
  { state with shares := Function.update state.shares ino shared }

/-- `rtems_rfs_dir_add_entry`: the directory may take blocks for the entry. -/
def dirAddEntry (state : State) (data tables : List Nat) : State :=
  { store state rootIno ((state.stored rootIno).grow data tables) with
    bitmap := mark state.bitmap (data ++ tables) }

/-- `rtems_rfs_dir_del_entry`: the directory may give blocks back. -/
def dirDelEntry (state : State) (count : Nat) (needed : List Nat) : State :=
  { store state rootIno ((state.stored rootIno).shrink count needed) with
    bitmap := unmark state.bitmap ((state.stored rootIno).cut count needed) }

/-- `rtems_rfs_inode_create` of a regular file. -/
def inodeCreate (data tables : List Nat) : State :=
  let state := { store state ino .empty with inodes := Function.update state.inodes ino true }
  dirAddEntry state data tables

/-- `rtems_rfs_inode_delete`. The map is that in the inode, which is overwritten. -/
def inodeDelete : State :=
  { store state ino .empty with
    inodes := Function.update state.inodes ino false
    bitmap := unmark state.bitmap (state.stored ino).blocks }

/-- `rtems_rfs_unlink` of the only name of a file. -/
def unlink (state : State) (ino count : Nat) (needed : List Nat) : State :=
  inodeDelete (dirDelEntry state count needed) ino

/-- `rtems_rfs_file_open`. -/
def fileOpen : State :=
  match state.shares ino with
  | some shared => share state ino (some { shared with references := shared.references + 1 })
  | none => share state ino (some ⟨state.stored ino, false, 1⟩)

/-- `rtems_rfs_block_map_close`. -/
def blockMapClose (shared : Shared) : State :=
  if shared.dirty = true then store state ino shared.map else state

/-- `rtems_rfs_file_close`. -/
def fileClose (shared : Shared) : State :=
  let references := shared.references - 1
  if references = 0 then share (blockMapClose state ino shared) ino none
  else share state ino (some { shared with references := references })

/-- A write that makes the map longer, or changes the size that is kept with it, or does
neither. -/
def fileWrite (shared : Shared) (data tables : List Nat) (resized : Bool) : State :=
  { share state ino (some { shared with
      map := shared.map.grow data tables
      dirty := shared.dirty || (resized || decide (data ++ tables ≠ [])) }) with
    bitmap := mark state.bitmap (data ++ tables) }

/-- `rtems_rfs_file_set_size` to a smaller size. -/
def fileTruncate (shared : Shared) (count : Nat) (needed : List Nat) : State :=
  { share state ino (some { shared with map := shared.map.shrink count needed, dirty := true }) with
    bitmap := unmark state.bitmap (shared.map.cut count needed) }

/-- The calls, with the blocks that are allocated or stay. -/
inductive Operation where
  | create (ino : Nat) (data tables : List Nat)
  | opens (ino : Nat)
  | write (ino : Nat) (data tables : List Nat) (resized : Bool)
  | truncate (ino count : Nat) (needed : List Nat)
  | unlink (ino count : Nat) (needed : List Nat)
  | close (ino : Nat)

/-- The bitmap gives these blocks out. -/
def Free (state : State) (blocks : List Nat) : Prop :=
  blocks.Nodup ∧ ∀ block ∈ blocks, state.bitmap block = false
deriving Decidable

/-- A call. Only files with a name are opened and unlinked, only open files are written,
truncated and closed. -/
def step (state : State) : Operation → Option State
  | .create ino data tables =>
    if state.inodes ino = false ∧ Free state (data ++ tables) then
      some (inodeCreate state ino data tables)
    else none
  | .opens ino =>
    if state.inodes ino = true ∧ ino ≠ rootIno then some (fileOpen state ino) else none
  | .write ino data tables resized =>
    if Free state (data ++ tables) then
      (state.shares ino).map fun shared => fileWrite state ino shared data tables resized
    else none
  | .truncate ino count needed =>
    (state.shares ino).map fun shared => fileTruncate state ino shared count needed
  | .unlink ino count needed =>
    if state.inodes ino = true ∧ ino ≠ rootIno then some (unlink state ino count needed) else none
  | .close ino => (state.shares ino).map fun shared => fileClose state ino shared

/-- The map of an open file is the shared one, that of another node is in its inode. The
copy in the inode of an open file is old until the file is closed. -/
def Current (map : Map) : Prop :=
  match state.shares ino with
  | some shared => map = shared.map
  | none => state.inodes ino = true ∧ map = state.stored ino

/-- The blocks that a node has. -/
def holds : List Nat :=
  match state.shares ino with
  | some shared => shared.map.blocks
  | none => if state.inodes ino = true then (state.stored ino).blocks else []

/-- A map of a node, also the old copy in the inode of an open file. -/
def Mapped (map : Map) : Prop :=
  (∃ shared, state.shares ino = some shared ∧ map = shared.map) ∨
    (state.inodes ino = true ∧ map = state.stored ino)

end

/-- No file is open, and every used block has one owner or is foreign to all maps. -/
structure Initial (foreign : Nat → Bool) (state : State) : Prop where
  closed : ∀ ino, state.shares ino = none
  root : state.inodes rootIno = true
  owned : Owned (holds state) state.bitmap foreign

/-- An open file is unlinked only if it has no blocks, and not written after that. A file
is not created in the inode of an open file. -/
def Careful (state : State) : Operation → Prop
  | .create ino _ _ => state.shares ino = none
  | .write ino data tables _ => data ++ tables ≠ [] → state.inodes ino = true
  | .unlink ino _ _ => ∀ shared ∈ state.shares ino,
      shared.map.blocks = [] ∧ (state.stored ino).blocks = []
  | _ => True

theorem Map.perm_grow (map : Map) (data tables : List Nat) :
    (map.grow data tables).blocks.Perm (map.blocks ++ (data ++ tables)) := by
  rw [Map.blocks, Map.blocks, Map.grow, List.append_assoc, List.append_assoc]
  refine List.Perm.append_left map.data ?_
  exact List.perm_append_comm_assoc _ _ _

theorem Map.perm_shrink (map : Map) (count : Nat) (needed : List Nat) :
    ((map.shrink count needed).blocks ++ map.cut count needed).Perm map.blocks := by
  have tables := List.filter_append_perm (fun table => decide (table ∈ needed)) map.tables
  have whole : map.blocks = (map.data.take count ++ map.data.drop count) ++ map.tables := by
    rw [List.take_append_drop, Map.blocks]
  rw [whole, Map.blocks, Map.shrink, Map.cut, List.append_assoc, List.append_assoc]
  refine List.Perm.append_left _ ?_
  exact (List.perm_append_comm_assoc _ _ _).trans (tables.append_left _)

/-- The shared part of an open file decides what it has. -/
theorem holds_share (st : State) (ino : Nat) (shared : Shared) :
    holds (share st ino (some shared)) = update (holds st) ino shared.map.blocks := by
  funext other
  by_cases same : other = ino
  · subst same
    rw [update_self, holds, share]
    dsimp only
    rw [update_self]
  · rw [update_of_ne same, holds, share]
    dsimp only
    rw [update_of_ne same]
    rfl

theorem setShare_shares (st : State) (ino : Nat) (shared : Option Shared)
    (bitmap : Nat → Bool) : { share st ino shared with bitmap := bitmap }.shares =
      update st.shares ino shared := rfl

/-- A node that is no longer open has what is in its inode. -/
theorem holds_unshare (st : State) (ino : Nat) :
    holds (share st ino none) = update (holds st) ino
      (if st.inodes ino = true then (st.stored ino).blocks else []) := by
  funext other
  by_cases same : other = ino
  · subst same
    rw [update_self, holds, share]
    dsimp only
    rw [update_self]
  · rw [update_of_ne same, holds, share]
    dsimp only
    rw [update_of_ne same]
    rfl

variable {ino : Nat} {shared : Shared}

variable {st : State}

/-- While a file is open its inode does not matter. -/
theorem holds_store_open (map : Map) (opened : st.shares ino = some shared) :
    holds (store st ino map) = holds st := by
  funext other
  by_cases same : other = ino
  · subst same
    rw [holds, holds, store]
    rw [opened]
  · rw [holds, store]
    dsimp only
    rw [update_of_ne same]
    rfl

/-- What the inode of a node that is not open has. -/
theorem holds_store (map : Map) (closed : st.shares ino = none) (used : st.inodes ino = true)
    :
    holds (store st ino map) = update (holds st) ino map.blocks := by
  funext other
  by_cases same : other = ino
  · subst same
    rw [update_self, holds, store]
    dsimp only
    rw [closed, update_self]
    exact if_pos used
  · rw [update_of_ne same, holds, store]
    dsimp only
    rw [update_of_ne same]
    rfl

/-- The last close writes one inode only. -/
theorem blockMapClose_frame (st : State) (ino : Nat) (shared : Shared) :
    blockMapClose st ino shared =
        { st with stored := (blockMapClose st ino shared).stored } ∧
      ∀ other, other ≠ ino →
        (blockMapClose st ino shared).stored other = st.stored other := by
  rw [blockMapClose]
  split
  · exact ⟨rfl, fun other ne => update_of_ne ne _ _⟩
  · exact ⟨rfl, fun _ _ => rfl⟩

/-- Every used block has one owner. An open file without a name has no blocks, and a map
that was not changed is that of the inode. -/
structure Sound (foreign : Nat → Bool) (state : State) : Prop where
  owned : Owned (holds state) state.bitmap foreign
  root : state.inodes rootIno = true ∧ state.shares rootIno = none
  orphan : ∀ ino shared, state.shares ino = some shared → state.inodes ino = false →
    shared.map.blocks = []
  clean : ∀ ino shared, state.shares ino = some shared → shared.dirty = false →
    state.inodes ino = true → state.stored ino = shared.map

variable {bitmap : Nat → Bool} {map : Map} {next : State}

namespace Sound

variable {foreign : Nat → Bool} {st : State}

/-- What the directory has. -/
theorem holds_root (sound : Sound foreign st) :
    holds st rootIno = (st.stored rootIno).blocks := by
  rw [holds, sound.root.2]
  exact if_pos sound.root.1

/-- An open file is not the directory. -/
theorem ne_root (sound : Sound foreign st)
    (opened : st.shares ino = some shared) : ino ≠ rootIno := by
  rintro rfl
  rw [sound.root.2] at opened
  cases opened

theorem holds_shared (opened : st.shares ino = some shared) :
    holds st ino = shared.map.blocks := by
  rw [holds, opened]

/-- The shared part of a file is set. -/
theorem setShare (sound : Sound foreign st) (file : ino ≠ rootIno)
    (owned : Owned (update (holds st) ino shared.map.blocks) bitmap foreign)
    (orphan : st.inodes ino = false → shared.map.blocks = [])
    (clean : shared.dirty = false → st.inodes ino = true → st.stored ino = shared.map) :
    Sound foreign { share st ino (some shared) with bitmap := bitmap } := by
  constructor
  · rw [← holds_share] at owned
    exact owned
  · exact ⟨sound.root.1, (update_of_ne (Ne.symm file) _ _).trans sound.root.2⟩
  · intro other found opened unnamed
    by_cases same : other = ino
    · subst same
      rw [setShare_shares, update_self] at opened
      cases opened
      exact orphan unnamed
    · rw [setShare_shares, update_of_ne same] at opened
      exact sound.orphan other found opened unnamed
  · intro other found opened unchanged named
    by_cases same : other = ino
    · subst same
      rw [setShare_shares, update_self] at opened
      cases opened
      exact clean unchanged named
    · rw [setShare_shares, update_of_ne same] at opened
      exact sound.clean other found opened unchanged named

/-- Another handle of a file does not change its map. -/
theorem fileOpen (sound : Sound foreign st) (named : st.inodes ino = true)
    (file : ino ≠ rootIno) : Sound foreign (fileOpen st ino) := by
  rw [OpenFile.fileOpen]
  cases opened : st.shares ino with
  | some shared =>
    refine sound.setShare file ?_ (sound.orphan ino shared opened) (sound.clean ino shared opened)
    rw [← holds_shared opened, update_eq_self]
    exact sound.owned
  | none =>
    refine sound.setShare file ?_ ?_ ?_
    · have same : holds st ino = (st.stored ino).blocks := by
        rw [holds, opened]
        exact if_pos named
      rw [← same, update_eq_self]
      exact sound.owned
    · intro unnamed
      rw [named] at unnamed
      cases unnamed
    · intro _ _
      rfl

variable {data tables : List Nat}

section

variable (sound : Sound foreign st)
include sound

section

variable (opened : st.shares ino = some shared)
include opened

/-- A write takes blocks for a file with a name. -/
theorem fileWrite
    (free : Free st (data ++ tables)) (careful : data ++ tables ≠ [] → st.inodes ino = true)
    (resized : Bool) : Sound foreign (fileWrite st ino shared data tables resized) := by
  have grown := shared.map.perm_grow data tables
  refine sound.setShare (sound.ne_root opened) ?_ ?_ ?_
  · rw [← holds_shared opened] at grown
    exact sound.owned.grow grown free.1 free.2
  · intro unnamed
    have nothing : data ++ tables = [] := by
      by_contra some_blocks
      rw [careful some_blocks] at unnamed
      cases unnamed
    rw [nothing, List.append_nil, sound.orphan ino shared opened unnamed] at grown
    exact grown.eq_nil
  · intro unchanged named
    rw [Bool.or_eq_false_iff, Bool.or_eq_false_iff, decide_eq_false_iff_not, not_not] at unchanged
    obtain ⟨rfl, rfl⟩ := List.append_eq_nil_iff.mp unchanged.2.2
    rw [Map.grow, List.append_nil, List.append_nil]
    exact sound.clean ino shared opened unchanged.1 named

/-- A truncation frees the blocks that it takes from the map. -/
theorem fileTruncate (count : Nat) (needed : List Nat) :
    Sound foreign (fileTruncate st ino shared count needed) := by
  have parts := shared.map.perm_shrink count needed
  refine sound.setShare (sound.ne_root opened) ?_ ?_ ?_
  · rw [← holds_shared opened] at parts
    exact sound.owned.shrink parts
  · intro unnamed
    rw [sound.orphan ino shared opened unnamed] at parts
    exact (List.append_eq_nil_iff.mp parts.eq_nil).1
  · intro unchanged
    cases unchanged

/-- The last close leaves the map in the inode. -/
theorem fileClose : Sound foreign (fileClose st ino shared) := by
  have file := sound.ne_root opened
  have held := holds_shared opened
  rw [OpenFile.fileClose]
  split
  next =>
    -- The map in the inode is the shared one, or there is no inode and no block.
    have same : holds (share (blockMapClose st ino shared) ino none) = holds st := by
      have value : (if (blockMapClose st ino shared).inodes ino = true then
          ((blockMapClose st ino shared).stored ino).blocks else []) = holds st ino := by
        rw [held, blockMapClose]
        cases named : st.inodes ino with
        | false =>
          rw [sound.orphan ino shared opened named]
          split
          · exact if_neg (by rw [store, named]; exact Bool.false_ne_true)
          · exact if_neg (by rw [named]; exact Bool.false_ne_true)
        | true =>
          cases changed : shared.dirty with
          | true =>
            rw [if_pos rfl, store]
            dsimp only
            rw [if_pos named, update_self]
          | false =>
            rw [if_neg Bool.false_ne_true, if_pos named, sound.clean ino shared opened changed named]
      have kept : holds (blockMapClose st ino shared) = holds st := by
        rw [blockMapClose]
        split
        · exact holds_store_open _ opened
        · rfl
      rw [holds_unshare, value, kept, update_eq_self]
    have frame := blockMapClose_frame st ino shared
    have shares : ∀ other found,
        (share (blockMapClose st ino shared) ino none).shares other = some found →
          other ≠ ino ∧ st.shares other = some found := by
      intro other found present
      rw [share, frame.1] at present
      dsimp only at present
      by_cases here : other = ino
      · rw [here, update_self] at present
        cases present
      · rw [update_of_ne here] at present
        exact ⟨here, present⟩
    constructor
    · rw [same, share, frame.1]
      exact sound.owned
    · rw [share, frame.1]
      exact ⟨sound.root.1, (update_of_ne (Ne.symm file) _ _).trans sound.root.2⟩
    · intro other found present unnamed
      rw [share, frame.1] at unnamed
      exact sound.orphan other found (shares other found present).2 unnamed
    · intro other found present unchanged named
      obtain ⟨ne, present⟩ := shares other found present
      rw [share, frame.1] at named
      exact (frame.2 other ne).trans (sound.clean other found present unchanged named)
  next =>
    refine sound.setShare file ?_ (sound.orphan ino shared opened) (sound.clean ino shared opened)
    rw [← held, update_eq_self]
    exact sound.owned

end

/-- The map of the directory is set. -/
theorem setRoot (owned : Owned (update (holds st) rootIno map.blocks) bitmap foreign) :
    Sound foreign { store st rootIno map with bitmap := bitmap } := by
  constructor
  · rw [← holds_store map sound.root.2 sound.root.1] at owned
    exact owned
  · exact sound.root
  · exact sound.orphan
  · intro ino shared opened unchanged named
    exact (update_of_ne (sound.ne_root opened) _ _).trans
      (sound.clean ino shared opened unchanged named)

theorem dirAddEntry
    (free : Free st (data ++ tables)) : Sound foreign (dirAddEntry st data tables) := by
  have grown := (st.stored rootIno).perm_grow data tables
  rw [← sound.holds_root] at grown
  exact sound.setRoot (sound.owned.grow grown free.1 free.2)

/-- An entry is deleted from the directory. -/
theorem dirDelEntry (count : Nat) (needed : List Nat) :
    Sound foreign (dirDelEntry st count needed) := by
  have parts := (st.stored rootIno).perm_shrink count needed
  rw [← sound.holds_root] at parts
  exact sound.setRoot (sound.owned.shrink parts)

/-- A file is created without blocks. -/
theorem inodeCreate (free : st.inodes ino = false) (closed : st.shares ino = none)
    (blocks : Free st (data ++ tables)) : Sound foreign (inodeCreate st ino data tables) := by
  have file : rootIno ≠ ino := by
    rintro rfl
    rw [sound.root.1] at free
    cases free
  have opened_ne : ∀ other shared, st.shares other = some shared → other ≠ ino := by
    rintro other shared opened rfl
    rw [closed] at opened
    cases opened
  have same : holds { store st ino .empty with
      inodes := update st.inodes ino true } = holds st := by
    funext other
    by_cases here : other = ino
    · subst here
      simp only [holds, store, free, update_self]
      rfl
    · simp only [holds, store, update_of_ne here]
  have created : Sound foreign { store st ino .empty with
      inodes := update st.inodes ino true } := by
    constructor
    · rw [same]
      exact sound.owned
    · exact ⟨(update_of_ne file _ _).trans sound.root.1, sound.root.2⟩
    · intro other shared opened unnamed
      dsimp only at unnamed
      rw [update_of_ne (opened_ne other shared opened)] at unnamed
      exact sound.orphan other shared opened unnamed
    · intro other shared opened unchanged named
      dsimp only at named
      have ne := opened_ne other shared opened
      rw [update_of_ne ne] at named
      exact (update_of_ne ne _ _).trans (sound.clean other shared opened unchanged named)
  exact created.dirAddEntry blocks

/-- The blocks of a file are freed with its inode. -/
theorem inodeDelete (named : st.inodes ino = true)
    (file : ino ≠ rootIno) (careful : ∀ shared ∈ st.shares ino, shared.map.blocks = [] ∧
      (st.stored ino).blocks = []) : Sound foreign (inodeDelete st ino) := by
  have whole : ([] ++ (st.stored ino).blocks).Perm (holds st ino) := by
    rw [List.nil_append, holds]
    cases opened : st.shares ino with
    | none =>
      rw [if_pos named]
    | some shared =>
      dsimp only
      rw [(careful shared opened).1, (careful shared opened).2]
  have deleted : holds (OpenFile.inodeDelete st ino) = update (holds st) ino [] := by
    funext other
    by_cases here : other = ino
    · subst here
      rw [update_self, holds, OpenFile.inodeDelete, store]
      cases opened : st.shares other with
      | none => simp only [update_self, Bool.false_eq_true, if_false]
      | some shared => exact (careful shared opened).1
    · simp only [holds, OpenFile.inodeDelete, store, update_of_ne here]
  constructor
  · rw [deleted]
    exact sound.owned.shrink whole
  · exact ⟨(update_of_ne (Ne.symm file) _ _).trans sound.root.1, sound.root.2⟩
  · intro other shared opened unnamed
    by_cases here : other = ino
    · subst here
      exact (careful shared opened).1
    · rw [OpenFile.inodeDelete] at unnamed
      dsimp only at unnamed
      rw [update_of_ne here] at unnamed
      exact sound.orphan other shared opened unnamed
  · intro other shared opened unchanged stays
    rw [OpenFile.inodeDelete] at stays
    dsimp only at stays
    have ne : other ≠ ino := by
      rintro rfl
      rw [update_self] at stays
      cases stays
    rw [update_of_ne ne] at stays
    exact (update_of_ne ne _ _).trans (sound.clean other shared opened unchanged stays)

end

/-- A call keeps one owner for each block. -/
theorem step (sound : Sound foreign st) {op : Operation}
    (careful : Careful st op) (taken : step st op = some next) :
    Sound foreign next := by
  cases op with
  | create ino data tables =>
    rw [OpenFile.step] at taken
    split at taken
    next offered =>
      cases taken
      exact sound.inodeCreate offered.1 careful offered.2
    next => cases taken
  | opens ino =>
    rw [OpenFile.step] at taken
    split at taken
    next offered =>
      cases taken
      exact sound.fileOpen offered.1 offered.2
    next => cases taken
  | write ino data tables resized =>
    rw [OpenFile.step] at taken
    split at taken
    next free =>
      obtain ⟨shared, opened, rfl⟩ := map_eq_some_iff.mp taken
      exact sound.fileWrite opened free careful resized
    next => cases taken
  | truncate ino count needed =>
    obtain ⟨shared, opened, rfl⟩ := map_eq_some_iff.mp taken
    exact sound.fileTruncate opened count needed
  | unlink ino count needed =>
    rw [OpenFile.step] at taken
    split at taken
    next offered =>
      cases taken
      obtain ⟨named, file⟩ := offered
      refine (sound.dirDelEntry count needed).inodeDelete named file ?_
      intro shared opened
      have stored : (OpenFile.dirDelEntry st count needed).stored ino = st.stored ino :=
        update_of_ne file _ _
      rw [stored]
      exact careful shared opened
    next => cases taken
  | close ino =>
    obtain ⟨shared, opened, rfl⟩ := map_eq_some_iff.mp taken
    exact sound.fileClose opened

end Sound

theorem Initial.sound {foreign : Nat → Bool} (begins : Initial foreign st) :
    Sound foreign st := by
  constructor
  · exact begins.owned
  · exact ⟨begins.root, begins.closed rootIno⟩
  iterate 2
    · intro ino shared opened
      rw [begins.closed] at opened
      cases opened

/-- No block that is still in the inode is freed by a truncation. -/
def Kept (state : State) : Operation → Prop
  | .truncate ino count needed => ∀ shared ∈ state.shares ino,
      ∀ block ∈ (state.stored ino).blocks, block ∉ shared.map.cut count needed
  | _ => True

/-- The blocks in the inode of an open file are in its shared map. -/
def Backed (state : State) : Prop :=
  ∀ ino shared, state.shares ino = some shared → state.inodes ino = true →
    ∀ block ∈ (state.stored ino).blocks, block ∈ shared.map.blocks

namespace Backed

variable {foreign : Nat → Bool} {st : State}

section

variable (backed : Backed st)
include backed

/-- The shared part of a file is set. -/
theorem setShare (here : st.inodes ino = true → ∀ block ∈ (st.stored ino).blocks,
      block ∈ shared.map.blocks) :
    Backed { share st ino (some shared) with bitmap := bitmap } := by
  intro other found opened named
  by_cases same : other = ino
  · subst same
    rw [setShare_shares, update_self] at opened
    cases opened
    exact here named
  · rw [setShare_shares, update_of_ne same] at opened
    exact backed other found opened named

theorem setInode (closed : st.shares ino = none) (map : Map) (bitmap inodes : Nat → Bool)
    (others : ∀ other, other ≠ ino → inodes other = st.inodes other) :
    Backed { store st ino map with bitmap := bitmap, inodes := inodes } := by
  intro other shared opened named block mem
  have ne : other ≠ ino := by
    rintro rfl
    rw [store, closed] at opened
    cases opened
  dsimp only [store] at mem named
  rw [update_of_ne ne] at mem
  rw [others other ne] at named
  exact backed other shared opened named block mem

/-- A write leaves the blocks that are in the inode in the shared map. -/
theorem fileWrite (opened : st.shares ino = some shared) (data tables : List Nat)
    (resized : Bool) : Backed (fileWrite st ino shared data tables resized) := by
  refine backed.setShare ?_
  intro named block mem
  rw [(shared.map.perm_grow data tables).mem_iff, List.mem_append]
  exact .inl (backed ino shared opened named block mem)

/-- A truncation that keeps them leaves the blocks that are in the inode in the shared
map. -/
theorem fileTruncate (opened : st.shares ino = some shared) {count : Nat} {needed : List Nat}
    (kept : ∀ block ∈ (st.stored ino).blocks, block ∉ shared.map.cut count needed) :
    Backed (fileTruncate st ino shared count needed) := by
  refine backed.setShare ?_
  intro named block mem
  have inside := backed ino shared opened named block mem
  rw [← (shared.map.perm_shrink count needed).mem_iff, List.mem_append] at inside
  exact inside.resolve_right (kept block mem)

theorem fileOpen (ino : Nat) : Backed (fileOpen st ino) := by
  rw [OpenFile.fileOpen]
  cases opened : st.shares ino with
  | some shared => exact backed.setShare (backed ino shared opened)
  | none => exact backed.setShare fun _ _ mem => mem

theorem fileClose
    (opened : st.shares ino = some shared) : Backed (fileClose st ino shared) := by
  rw [OpenFile.fileClose]
  split
  next =>
    have frame := blockMapClose_frame st ino shared
    intro other found present named block mem
    rw [share, frame.1] at present named
    dsimp only at present named
    by_cases same : other = ino
    · rw [same, update_self] at present
      cases present
    · rw [update_of_ne same] at present
      rw [share, frame.2 other same] at mem
      exact backed other found present named block mem
  next => exact backed.setShare (backed ino shared opened)

end

/-- A call that keeps the blocks in the inodes of open files. -/
theorem step (backed : Backed st) (sound : Sound foreign st)
    {op : Operation} (careful : Careful st op) (kept : Kept st op)
    (taken : step st op = some next) : Backed next := by
  cases op with
  | create ino data tables =>
    rw [OpenFile.step] at taken
    split at taken
    next offered =>
      cases taken
      have created := backed.setInode careful .empty st.bitmap (update st.inodes ino true)
        fun other ne => update_of_ne ne _ _
      exact created.setInode sound.root.2 _ _ _ fun _ _ => rfl
    next => cases taken
  | opens ino =>
    rw [OpenFile.step] at taken
    split at taken
    next =>
      cases taken
      exact backed.fileOpen ino
    next => cases taken
  | write ino data tables resized =>
    rw [OpenFile.step] at taken
    split at taken
    next =>
      obtain ⟨shared, opened, rfl⟩ := map_eq_some_iff.mp taken
      exact backed.fileWrite opened data tables resized
    next => cases taken
  | truncate ino count needed =>
    obtain ⟨shared, opened, rfl⟩ := map_eq_some_iff.mp taken
    exact backed.fileTruncate opened (kept shared opened)
  | unlink ino count needed =>
    rw [OpenFile.step] at taken
    split at taken
    next =>
      cases taken
      have shortened := backed.setInode sound.root.2 ((st.stored rootIno).shrink count needed)
        (unmark st.bitmap ((st.stored rootIno).cut count needed)) st.inodes
        fun _ _ => rfl
      intro other shared opened named block mem
      have ne : other ≠ ino := by
        rintro rfl
        rw [unlink, inodeDelete] at named
        dsimp only at named
        rw [update_self] at named
        cases named
      rw [unlink, inodeDelete] at named mem
      dsimp only [store] at named mem
      rw [update_of_ne ne] at named mem
      exact shortened other shared opened named block mem
    next => cases taken
  | close ino =>
    obtain ⟨shared, opened, rfl⟩ := map_eq_some_iff.mp taken
    exact backed.fileClose opened

end Backed

/-- A node has the blocks of its map. -/
theorem mem_holds_iff (st : State) (ino block : Nat) :
    block ∈ holds st ino ↔ ∃ map, Current st ino map ∧ block ∈ map.blocks := by
  rw [holds]
  simp only [Current]
  cases st.shares ino with
  | some shared =>
    constructor
    · intro mem
      exact ⟨shared.map, rfl, mem⟩
    · rintro ⟨map, rfl, mem⟩
      exact mem
  | none =>
    dsimp only
    split
    next named =>
      constructor
      · intro mem
        exact ⟨st.stored ino, ⟨named, rfl⟩, mem⟩
      · rintro ⟨map, ⟨-, rfl⟩, mem⟩
        exact mem
    next unnamed =>
      constructor
      · intro mem
        cases mem
      · rintro ⟨map, ⟨named, -⟩, -⟩
        exact absurd named unnamed

variable {block : Nat}

namespace Sound

variable {foreign : Nat → Bool} {st : State}

/-- A map that is in use has every block once. -/
theorem nodup_of_current (sound : Sound foreign st)
    (cur : Current st ino map) : map.blocks.Nodup := by
  have nodup := sound.owned.nodup ino
  rw [holds] at nodup
  rw [Current] at cur
  cases opened : st.shares ino with
  | some shared =>
    rw [opened] at nodup cur
    rw [cur]
    exact nodup
  | none =>
    rw [opened] at nodup cur
    rw [if_pos cur.1] at nodup
    rw [cur.2]
    exact nodup

/-- A block that a node has is allocated, and no other node has it. -/
theorem only_owner (sound : Sound foreign st) (mem : block ∈ holds st ino) :
    st.bitmap block = true ∧ ∀ other, block ∈ holds st other → other = ino := by
  constructor
  · exact (sound.owned.used block).mpr (.inr ⟨ino, mem⟩)
  · intro other inside
    exact sound.owned.apart other ino block inside mem

/-- A node with blocks has an inode. -/
theorem named_of_holds (sound : Sound foreign st)
    (mem : block ∈ holds st ino) : st.inodes ino = true := by
  rw [← Bool.not_eq_false]
  intro unnamed
  rw [holds] at mem
  cases opened : st.shares ino with
  | some shared =>
    rw [opened] at mem
    dsimp only at mem
    rw [sound.orphan ino shared opened unnamed] at mem
    cases mem
  | none =>
    rw [opened] at mem
    rw [unnamed, if_neg Bool.false_ne_true] at mem
    cases mem

theorem unlink_frees {count : Nat} {needed : List Nat}
    (careful : Careful st (.unlink ino count needed))
    (taken : OpenFile.step st (.unlink ino count needed) = some next) :
    next.inodes ino = false ∧ ∀ block ∈ holds st ino, next.bitmap block = false := by
  rw [OpenFile.step] at taken
  split at taken
  next offered =>
    cases taken
    obtain ⟨named, file⟩ := offered
    refine ⟨update_self _ _ _, ?_⟩
    intro block mem
    have stored : (OpenFile.dirDelEntry st count needed).stored ino = st.stored ino :=
      update_of_ne file _ _
    have inside : block ∈ (st.stored ino).blocks := by
      rw [holds] at mem
      cases opened : st.shares ino with
      | some shared =>
        rw [opened] at mem
        dsimp only at mem
        rw [(careful shared opened).1] at mem
        cases mem
      | none =>
        rw [opened] at mem
        rwa [if_pos named] at mem
    rw [← Bool.not_eq_true, unlink, OpenFile.inodeDelete]
    rw [unmark_eq_true, stored]
    exact fun used => used.2 inside
  next => cases taken

/-- The last close of a file without a name leaves its inode and its blocks free. -/
theorem close_frees (sound : Sound foreign st)
    (opened : st.shares ino = some shared) (last : shared.references ≤ 1)
    (unnamed : st.inodes ino = false) (taken : OpenFile.step st (.close ino) = some next) :
    next.shares ino = none ∧ next.inodes ino = false ∧
      ∀ block ∈ shared.map.blocks, next.bitmap block = false := by
  obtain ⟨found, present, rfl⟩ := map_eq_some_iff.mp taken
  rw [opened] at present
  cases present
  rw [OpenFile.fileClose]
  rw [if_pos (Nat.sub_eq_zero_of_le last), share, (blockMapClose_frame st ino shared).1]
  refine ⟨update_self _ _ _, unnamed, ?_⟩
  intro block mem
  rw [sound.orphan ino shared opened unnamed] at mem
  cases mem

end Sound

/-- If the inode of an open file has no blocks but those of the shared map, then each map
of a node has blocks of that node only. -/
theorem Backed.holds_of_mapped (backed : Backed st) (mapped : Mapped st ino map)
    (mem : block ∈ map.blocks) : block ∈ holds st ino := by
  rw [holds]
  obtain ⟨shared, opened, rfl⟩ | ⟨named, rfl⟩ := mapped
  · rw [opened]
    exact mem
  · cases opened : st.shares ino with
    | some shared => exact backed ino shared opened named block mem
    | none =>
      rwa [if_pos named]

/-- In every run in which an open file is unlinked only if it has no blocks and does not
grow after that, and no file is created in the inode of an open one, each block in the map
of an open file or of an allocated inode is allocated, once, and of that node only. All
allocated blocks are of nodes with a name or foreign to the maps, and the blocks of a file
are free when its last name and its last handle are gone. The old maps in the inodes of
open files have such blocks too if no truncation frees a block that they have. -/
theorem runs_keep_one_owner (foreign : Nat → Bool) (past : List State) (state : State)
    (run : Trace (Initial foreign) Careful step past state) :
    (∀ ino map, Current state ino map → map.blocks.Nodup ∧ ∀ block ∈ map.blocks,
      state.bitmap block = true ∧ ∀ other otherMap, Current state other otherMap →
        block ∈ otherMap.blocks → other = ino) ∧
    (∀ block, state.bitmap block = true → foreign block = true ∨
      ∃ ino map, state.inodes ino = true ∧ Current state ino map ∧ block ∈ map.blocks) ∧
    (∀ ino count needed next, Careful state (.unlink ino count needed) →
      step state (.unlink ino count needed) = some next → next.inodes ino = false ∧
        ∀ map, Current state ino map → ∀ block ∈ map.blocks, next.bitmap block = false) ∧
    (∀ ino shared next, state.shares ino = some shared → shared.references ≤ 1 →
      state.inodes ino = false → step state (.close ino) = some next →
        next.shares ino = none ∧ next.inodes ino = false ∧
          ∀ block ∈ shared.map.blocks, next.bitmap block = false) ∧
    (Trace (Initial foreign) (fun state operation => Careful state operation ∧
        Kept state operation) step past state →
      ∀ ino map, Mapped state ino map → ∀ block ∈ map.blocks, state.bitmap block = true ∧
        ∀ other otherMap, Mapped state other otherMap → block ∈ otherMap.blocks → other = ino) := by
  have sound : Sound foreign state := by
    refine run.invariant (Sound foreign) ?_ ?_
    · intro state begins
      exact begins.sound
    · intro state operation next sound careful taken
      exact sound.step careful taken
  refine ⟨?_, ?_, ?_, ?_, ?_⟩
  · intro ino map current
    refine ⟨sound.nodup_of_current current, ?_⟩
    intro block member
    obtain ⟨used, only⟩ := sound.only_owner ((mem_holds_iff state ino block).mpr
      ⟨map, current, member⟩)
    refine ⟨used, ?_⟩
    intro other otherMap other_current inside
    exact only other ((mem_holds_iff state other block).mpr ⟨otherMap, other_current, inside⟩)
  · intro block used
    obtain outside | ⟨ino, member⟩ := (sound.owned.used block).mp used
    · exact .inl outside
    · obtain ⟨map, current, inside⟩ := (mem_holds_iff state ino block).mp member
      exact .inr ⟨ino, map, sound.named_of_holds member, current, inside⟩
  · intro ino count needed next careful taken
    obtain ⟨gone, free⟩ := Sound.unlink_frees careful taken
    refine ⟨gone, ?_⟩
    intro map current block member
    exact free block ((mem_holds_iff state ino block).mpr ⟨map, current, member⟩)
  · intro ino shared next opened last unnamed taken
    exact sound.close_frees opened last unnamed taken
  · intro keeping
    have both : Sound foreign state ∧ Backed state := by
      refine keeping.invariant (fun state => Sound foreign state ∧ Backed state) ?_ ?_
      · intro state begins
        refine ⟨begins.sound, ?_⟩
        intro ino shared opened
        rw [begins.closed] at opened
        cases opened
      · rintro state operation next ⟨sound, backed⟩ ⟨careful, kept⟩ taken
        exact ⟨sound.step careful taken, backed.step sound careful kept taken⟩
    intro ino map mapped block member
    obtain ⟨used, only⟩ := sound.only_owner (both.2.holds_of_mapped mapped member)
    refine ⟨used, ?_⟩
    intro other otherMap other_mapped inside
    exact only other (both.2.holds_of_mapped other_mapped inside)

instance (state : State) (operation : Operation) : Decidable (Careful state operation) :=
  match operation with
  | .create ino _ _ =>
    match found : state.shares ino with
    | some _ => .isFalse fun closed => Option.some_ne_none _ (found.symm.trans closed)
    | none => .isTrue found
  | .opens _ | .truncate .. | .close _ => .isTrue trivial
  | .write .. => inferInstanceAs (Decidable (_ → _))
  | .unlink ino _ _ => inferInstanceAs (Decidable (∀ shared ∈ state.shares ino,
      shared.map.blocks = [] ∧ (state.stored ino).blocks = []))

/-- A directory with one block, behind five blocks for the file system itself. -/
def start : State where
  bitmap block := decide (block < 6)
  inodes ino := decide (ino = rootIno)
  stored ino := if ino = rootIno then ⟨[5], []⟩ else .empty
  shares _ := none

theorem start_initial : Initial (fun block => decide (block < 5)) start := by
  have mem : ∀ ino block, block ∈ holds start ino ↔ ino = rootIno ∧ block = 5 := by
    intro ino block
    by_cases root : ino = rootIno <;> simp [holds, start, root, Map.blocks]
  constructor
  · intro ino
    rfl
  · rfl
  · constructor
    · intro ino
      by_cases root : ino = rootIno <;> simp [holds, start, root, Map.blocks]
    · intro first second block one two
      exact ((mem first block).mp one).1.trans ((mem second block).mp two).1.symm
    · intro block
      have used : start.bitmap block = true ↔ block < 6 := decide_eq_true_iff
      simp only [mem, used, decide_eq_true_iff, exists_eq_left]
      omega
    · intro ino block inside
      rw [((mem ino block).mp inside).2]
      rfl

/-- A file is written, truncated and unlinked, and another file takes its block. -/
theorem runs_keep_one_owner_reused :
    ∃ (past : List State) (state : State),
      Trace (Initial fun block => decide (block < 5)) Careful step past state ∧
      (state.inodes 2, state.bitmap 11) = (false, false) ∧ state.bitmap 10 = true := by
  obtain ⟨past, state, run, seen⟩ := Trace.observe Careful step start start_initial
    [.create 2 [] [], .opens 2, .write 2 [10, 11] [12] true, .truncate 2 1 [], .close 2,
      .unlink 2 1 [], .create 3 [] [], .opens 3, .write 3 [10] [] true]
    (fun state => ((state.inodes 2, state.bitmap 11), (state.shares 3).map Shared.map))
    ((false, false), some ⟨[10], []⟩) (by decide +kernel) (by decide +kernel)
  obtain ⟨free, shown⟩ := Prod.mk.inj seen
  obtain ⟨shared, opened, same⟩ := map_eq_some_iff.mp shown
  have current : Current state 3 ⟨[10], []⟩ := by
    rw [Current, opened]
    exact same.symm
  obtain ⟨maps, -⟩ := runs_keep_one_owner _ past state run
  exact ⟨past, state, run, free, ((maps 3 _ current).2 10 (by decide)).1⟩

/-- A file with a block is open and unlinked, and another file takes the block. Both open
files have it. -/
theorem unlinked_open_file_shares_block :
    ∃ (past : List State) (state : State),
      Trace (Initial fun block => decide (block < 5)) (fun _ _ => True) step past state ∧
      Current state 2 ⟨[10], []⟩ ∧ Current state 3 ⟨[10], []⟩ := by
  obtain ⟨past, state, run, seen⟩ := Trace.observe (fun _ _ => True) step start start_initial
    [.create 2 [] [], .opens 2, .write 2 [10] [] true, .close 2, .opens 2, .unlink 2 1 [],
      .create 3 [] [], .opens 3, .write 3 [10] [] true]
    (fun state => ((state.shares 2).map Shared.map, (state.shares 3).map Shared.map))
    (some ⟨[10], []⟩, some ⟨[10], []⟩) (by decide +kernel) (by decide +kernel)
  obtain ⟨first, second⟩ := Prod.mk.inj seen
  refine ⟨past, state, run, ?_, ?_⟩
  · obtain ⟨shared, opened, same⟩ := map_eq_some_iff.mp first
    rw [Current, opened]
    exact same.symm
  · obtain ⟨shared, opened, same⟩ := map_eq_some_iff.mp second
    rw [Current, opened]
    exact same.symm

end Rtems.Rfs.OpenFile
