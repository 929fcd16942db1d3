import Mathlib.Data.List.Nodup
import Rtems.Library.Transition

/-!
# Links and link counts

A directory entry names an inode, and an inode counts the entries that name it. Entries
for a directory in itself are not counted; the one for its parent is. The calls that
create, link, remove and rename nodes change the counts together with the entries. An
inode without names is deleted.

The entries of all directories are one list. An entry is deleted at the offset of its
lookup, which stands for its name.
-/

namespace Rtems.Rfs.Link

open Transition
open Function (update update_of_ne update_self)
open List (erase_sublist mem_append mem_filter mem_singleton)
open Prod (ext mk)

/-- A name in a directory. -/
abbrev Name := List UInt8

/-- The name of a directory in itself. -/
def dot : Name := [46]

/-- The name of the parent in a directory. -/
def dotDot : Name := [46, 46]

/-- An entry of a directory, with the inode that it names. -/
structure Entry where
  dir : Nat
  name : Name
  ino : Nat
deriving DecidableEq

/-- Where an entry is. -/
def Entry.key (entry : Entry) : Nat × Name := (entry.dir, entry.name)

/-- The link count and the type of an inode. -/
structure Inode where
  links : UInt16
  isDir : Bool

/-- The inode bitmap, the inodes and the entries of all directories. -/
structure State where
  allocated : Nat → Bool
  inode : Nat → Inode
  entries : List Entry

/-- `RTEMS_RFS_ROOT_INO`. -/
def rootIno : Nat := 1

section

variable (state : State)

/-- `rtems_rfs_inode_get_links`. The number of an erased inode is read as zero. -/
def getLinks (ino : Nat) : Nat :=
  if (state.inode ino).links.toNat = 0xffff then 0 else (state.inode ino).links.toNat

/-- `rtems_rfs_inode_set_links`. -/
def setLinks (ino links : Nat) : State :=
  { state with
    inode := Function.update state.inode ino
      { state.inode ino with links := UInt16.ofNat links } }

/-- `rtems_rfs_dir_add_entry`. -/
def dirAddEntry (dir : Nat) (name : Name) (ino : Nat) : State :=
  { state with entries := state.entries ++ [⟨dir, name, ino⟩] }

/-- `rtems_rfs_dir_lookup_ino`. -/
def dirLookupIno (dir : Nat) (name : Name) : Option Nat :=
  (state.entries.find? fun entry => decide (entry.dir = dir ∧ entry.name = name)).map Entry.ino

/-- `rtems_rfs_dir_del_entry` at the offset of a name. -/
def dirDelEntry (dir ino : Nat) (name : Name) : Option State :=
  if ⟨dir, name, ino⟩ ∈ state.entries then
    some { state with entries := state.entries.erase ⟨dir, name, ino⟩ }
  else none

/-- `rtems_rfs_dir_empty`. -/
def dirEmpty (dir : Nat) : Bool :=
  state.entries.all fun entry =>
    decide (entry.dir = dir → entry.name = dot ∨ entry.name = dotDot)

/-- `rtems_rfs_inode_initialise`. The inode has no blocks. -/
def inodeInitialise (ino : Nat) (links : UInt16) (isDir : Bool) : State :=
  { state with
    inode := Function.update state.inode ino ⟨links, isDir⟩
    entries := state.entries.filter fun entry => decide (entry.dir ≠ ino) }

/-- `rtems_rfs_inode_create`, with the inode that was free. -/
def inodeCreate (parent : Nat) (name : Name) (isDir : Bool) (links : UInt16) (ino : Nat) : State :=
  let state := { state with allocated := Function.update state.allocated ino true }
  let state := inodeInitialise state ino links isDir
  let state :=
    if isDir = true then dirAddEntry (dirAddEntry state ino dot ino) ino dotDot parent
    else state
  let state := dirAddEntry state parent name ino
  if isDir = true then setLinks state parent (getLinks state parent + 1) else state

/-- `rtems_rfs_inode_delete`. The blocks are freed, and the inode is overwritten. -/
def inodeDelete (ino : Nat) : State where
  allocated := Function.update state.allocated ino false
  inode := Function.update state.inode ino ⟨0xffff, false⟩
  entries := state.entries.filter fun entry => decide (entry.dir ≠ ino)

/-- `rtems_rfs_link`. -/
def link (name : Name) (parent target : Nat) (linkDir : Bool) : Option State :=
  if linkDir = false ∧ (state.inode target).isDir = true then none
  else
    let state := dirAddEntry state parent name target
    some (setLinks state target (getLinks state target + 1))

/-- `rtems_rfs_unlink_dir`. -/
inductive UnlinkDir where
  | denied
  | ifEmpty
  | allowed
deriving DecidableEq

/-- The end of `rtems_rfs_unlink`, after the entry was deleted. -/
def dropLink (parent target : Nat) (dir : Bool) : State :=
  let links := getLinks state target
  if 1 < links then setLinks state target (links - 1)
  else
    let state := inodeDelete state target
    if dir = true then
      let links := getLinks state parent
      setLinks state parent (if 1 < links then links - 1 else links)
    else state

/-- `rtems_rfs_unlink`. -/
def unlink (parent target : Nat) (name : Name) (dirMode : UnlinkDir) : Option State :=
  let dir := (state.inode target).isDir
  if dir = true ∧ (dirMode = .denied ∨ dirMode = .ifEmpty ∧ dirEmpty state target = false) then
    none
  else (dirDelEntry state parent target name).map fun state => dropLink state parent target dir

/-- A path is evaluated to a directory. -/
def IsDirectory (dir : Nat) : Prop := state.allocated dir = true ∧ (state.inode dir).isDir = true
deriving Decidable

/-- A path is evaluated to a name that is not there. -/
def NewName (parent : Nat) (name : Name) : Prop :=
  IsDirectory state parent ∧ name ≠ dot ∧ name ≠ dotDot ∧ dirLookupIno state parent name = none
deriving Decidable

/-- A path is evaluated to a node by its name in a directory. A dot at the end of a path is
not looked up. -/
def locate (parent : Nat) (name : Name) : Option Nat :=
  if IsDirectory state parent ∧ name ≠ dot then dirLookupIno state parent name else none

/-- `rtems_rfs_rtems_mknod`. -/
def mknod (parent : Nat) (name : Name) (isDir : Bool) (ino : Nat) : State :=
  inodeCreate state parent name isDir 1 ino

/-- `rtems_rfs_rtems_rmnod`. The root is refused before. -/
def rmnod (parent target : Nat) (name : Name) : Option State :=
  if target = rootIno then none else unlink state parent target name .ifEmpty

/-- `rtems_rfs_rtems_rename`. -/
def rename (oldParent ino : Nat) (oldName : Name) (newParent : Nat) (newName : Name) : Option State
    := do
  let state ← link state newName newParent ino true
  unlink state oldParent ino oldName .allowed

/-- The calls. A node is created with an inode that is free. -/
inductive Operation where
  | mknod (parent : Nat) (name : Name) (isDir : Bool) (ino : Nat)
  | link (parent : Nat) (name : Name) (target : Nat)
  | unlink (parent : Nat) (name : Name)
  | rmdir (parent : Nat) (name : Name)
  | rename (oldParent : Nat) (oldName : Name) (newParent : Nat) (newName : Name)

/-- A call that succeeds. -/
def step : Operation → Option State
  | .mknod parent name isDir ino =>
    if NewName state parent name ∧ state.allocated ino = false then
      some (mknod state parent name isDir ino)
    else none
  | .link parent name target =>
    if NewName state parent name ∧ state.allocated target = true then
      link state name parent target false
    else none
  | .unlink parent name => do
    let target ← locate state parent name
    rmnod state parent target name
  | .rmdir parent name => do
    let target ← locate state parent name
    if (state.inode target).isDir = true then rmnod state parent target name else none
  | .rename oldParent oldName newParent newName => do
    let ino ← locate state oldParent oldName
    if NewName state newParent newName then
      rename state oldParent ino oldName newParent newName
    else none

/-- What `rtems_rfs_write_root_dir` leaves. The root has no entry for a parent. -/
structure Initial (state : State) : Prop where
  allocated : ∀ ino, state.allocated ino = decide (ino = rootIno)
  root : state.inode rootIno = ⟨0, true⟩
  entries : state.entries = [⟨rootIno, dot, rootIno⟩]

/-- The number of entries that name an inode, not those for a directory in itself. -/
def nameCount (entries : List Entry) (ino : Nat) : Nat :=
  entries.countP fun entry => decide (entry.ino = ino ∧ entry.name ≠ dot)

/-- An entry that is not one of those that a directory is created with. -/
def Proper (entry : Entry) : Prop := entry.name ≠ dot ∧ entry.name ≠ dotDot
deriving Decidable

/-- A directory is not moved to another directory, and the last directory in the root is
not removed. Link counts stay below their limit. -/
def Careful : Operation → Prop
  | .mknod parent _ isDir _ => isDir = true → getLinks state parent + 1 < 0xffff
  | .link _ _ target => getLinks state target + 1 < 0xffff
  | .unlink parent name | .rmdir parent name =>
    ∀ target ∈ locate state parent name, parent = rootIno →
      (state.inode target).isDir = true → getLinks state rootIno ≠ 1
  | .rename oldParent oldName newParent _ =>
    oldName ≠ dotDot ∧ ∀ ino ∈ locate state oldParent oldName,
      getLinks state ino + 1 < 0xffff ∧ ((state.inode ino).isDir = true → oldParent = newParent)

end

/-- The counts are right, every node but the root has a name, a directory has only one, and
the entry for its parent names the directory with that name. -/
structure Sound (state : State) : Prop where
  root : IsDirectory state rootIno
  members : ∀ entry ∈ state.entries,
    IsDirectory state entry.dir ∧ state.allocated entry.ino = true
  distinct : (state.entries.map Entry.key).Nodup
  links : ∀ ino, state.allocated ino = true → getLinks state ino = nameCount state.entries ino
  self : ∀ entry ∈ state.entries, entry.name = dot → entry.ino = entry.dir
  parents : ∀ entry ∈ state.entries, entry.name = dotDot →
    ∃ above ∈ state.entries, Proper above ∧ above.ino = entry.dir ∧ above.dir = entry.ino
  single : ∀ first ∈ state.entries, ∀ second ∈ state.entries, Proper first → Proper second →
    first.ino = second.ino → (state.inode first.ino).isDir = true → first = second
  top : ∀ entry ∈ state.entries, Proper entry → entry.ino ≠ rootIno
  upward : ∀ ino, IsDirectory state ino → ino ≠ rootIno →
    ∃ parent, ⟨ino, dotDot, parent⟩ ∈ state.entries
  named : ∀ ino, state.allocated ino = true → ino = rootIno ∨
    ∃ entry ∈ state.entries, Proper entry ∧ entry.ino = ino

theorem dot_ne_dotDot : dot ≠ dotDot := by decide

theorem getLinks_entries (st : State) (entries : List Entry) (ino : Nat) :
    getLinks { st with entries := entries } ino = getLinks st ino := rfl

theorem getLinks_setLinks (st : State) (ino other : Nat) {links : Nat} (bound : links < 0xffff) :
    getLinks (setLinks st ino links) other = if other = ino then links else getLinks st other := by
  by_cases same : other = ino
  · subst same
    have small : links % 2 ^ 16 = links := Nat.mod_eq_of_lt (by omega)
    simp only [getLinks, setLinks, update_self, UInt16.toNat_ofNat', small, if_true]
    rw [if_neg (by omega)]
  · simp only [getLinks, setLinks, update_of_ne same, if_neg same]

theorem isDir_setLinks (st : State) (ino links other : Nat) :
    ((setLinks st ino links).inode other).isDir = (st.inode other).isDir := by
  by_cases same : other = ino
  · subst same
    rw [setLinks]
    dsimp only
    rw [update_self]
  · rw [setLinks]
    dsimp only
    rw [update_of_ne same]

theorem getLinks_lt (st : State) (ino : Nat) : getLinks st ino < 0xffff := by
  have stored := (st.inode ino).links.toNat_lt
  rw [getLinks]
  split
  next => omega
  next => omega

variable {dir ino : Nat} {name : Name}

variable {st : State}

theorem lookup_mem (found : dirLookupIno st dir name = some ino) :
    ⟨dir, name, ino⟩ ∈ st.entries := by
  obtain ⟨entry, first, rfl⟩ := Option.map_eq_some_iff.mp found
  have here := List.find?_some first
  rw [decide_eq_true_iff] at here
  obtain ⟨rfl, rfl⟩ := here
  exact List.mem_of_find?_eq_some first

variable {parent target : Nat}

theorem locate_mem (found : locate st parent name = some target) :
    name ≠ dot ∧ ⟨parent, name, target⟩ ∈ st.entries := by
  rw [locate] at found
  split at found
  next here => exact ⟨here.2, lookup_mem found⟩
  next => cases found

theorem lookup_none (missing : dirLookupIno st dir name = none) :
    ∀ entry ∈ st.entries, entry.key ≠ (dir, name) := by
  intro entry present same
  cases same
  have absent := List.find?_eq_none.mp (Option.map_eq_none_iff.mp missing) entry present
  exact absent (decide_eq_true ⟨rfl, rfl⟩)

variable {entries : List Entry}

/-- Another entry under a name that is not there. -/
theorem distinct_concat (distinct : (entries.map Entry.key).Nodup)
    (entry : Entry) (new : ∀ other ∈ entries, other.key ≠ entry.key) :
    ((entries ++ [entry]).map Entry.key).Nodup := by
  rw [List.map_append, List.map_singleton, ← List.concat_eq_append]
  refine distinct.concat fun mem => ?_
  obtain ⟨other, present, same⟩ := List.mem_map.mp mem
  exact new other present same

theorem nameCount_concat (entries : List Entry) (entry : Entry) (ino : Nat) :
    nameCount (entries ++ [entry]) ino =
      nameCount entries ino + if entry.ino = ino ∧ entry.name ≠ dot then 1 else 0 := by
  rw [nameCount, List.countP_append, List.countP_singleton, ← nameCount]
  congr 1
  by_cases counted : entry.ino = ino ∧ entry.name ≠ dot
  · rw [if_pos counted, if_pos (decide_eq_true counted)]
  · rw [if_neg counted, if_neg (by rwa [decide_eq_true_iff])]

variable {entry : Entry}

theorem nameCount_erase (mem : entry ∈ entries) (ino : Nat) :
    nameCount entries ino = nameCount (entries.erase entry) ino +
        if entry.ino = ino ∧ entry.name ≠ dot then 1 else 0 := by
  rw [← nameCount_concat]
  refine ((List.perm_cons_erase mem).trans ?_).countP_eq _
  exact (List.perm_append_singleton _ _).symm

theorem nameCount_pos : 0 < nameCount entries ino ↔
    ∃ entry ∈ entries, entry.ino = ino ∧ entry.name ≠ dot := by
  rw [nameCount, List.countP_pos_iff]
  simp only [decide_eq_true_iff]

namespace Sound

variable {st : State}

section

variable (sound : Sound st)
include sound

theorem nodup : st.entries.Nodup := sound.distinct.of_map

theorem unique {first second : Entry} (one : first ∈ st.entries)
    (other : second ∈ st.entries) (dir : first.dir = second.dir)
    (name : first.name = second.name) : first = second :=
  List.inj_on_of_nodup_map sound.distinct one other (ext dir name)

/-- No entry names a free inode or is in it. -/
theorem fresh (free : st.allocated ino = false) :
    ∀ entry ∈ st.entries, entry.dir ≠ ino ∧ entry.ino ≠ ino := by
  intro entry mem
  obtain ⟨⟨dir, -⟩, target⟩ := sound.members entry mem
  constructor
  · rintro rfl
    rw [free] at dir
    cases dir
  · rintro rfl
    rw [free] at target
    cases target

/-- The entries that a new node does not have. -/
theorem filter_fresh (free : st.allocated ino = false) :
    (st.entries.filter fun entry => decide (entry.dir ≠ ino)) = st.entries := by
  rw [List.filter_eq_self]
  intro entry mem
  exact decide_eq_true (sound.fresh free entry mem).1

theorem nameCount_fresh (free : st.allocated ino = false) : nameCount st.entries ino = 0 := by
  by_contra some_name
  obtain ⟨entry, mem, same, -⟩ := nameCount_pos.mp (Nat.pos_of_ne_zero some_name)
  exact (sound.fresh free entry mem).2 same

end

end Sound

/-- What a new node changes. -/
structure Created (state : State) (parent : Nat) (name : Name) (isDir : Bool) (ino : Nat)
    (next : State) : Prop where
  allocated : next.allocated = Function.update state.allocated ino true
  kind : ∀ other, (next.inode other).isDir =
    if other = ino then isDir else (state.inode other).isDir
  links : ∀ other, getLinks next other =
    if other = ino then 1
    else getLinks state other + if isDir = true ∧ other = parent then 1 else 0
  entries : next.entries = state.entries ++
    (if isDir = true then [⟨ino, dot, ino⟩, ⟨ino, dotDot, parent⟩] else []) ++
      [⟨parent, name, ino⟩]

variable {isDir : Bool}

theorem Sound.created (sound : Sound st) (name : Name) (free : st.allocated ino = false)
    (apart : parent ≠ ino) (room : isDir = true → getLinks st parent + 1 < 0xffff) :
    Created st parent name isDir ino (inodeCreate st parent name isDir 1 ino) := by
  have initialised : ∀ allocated entries other,
      getLinks ⟨allocated, update st.inode ino ⟨1, isDir⟩, entries⟩ other =
        if other = ino then 1 else getLinks st other := by
    intro allocated entries other
    by_cases same : other = ino
    · subst same
      simp only [getLinks, update_self]
      rfl
    · simp only [getLinks, update_of_ne same, if_neg same]
  have kind : ∀ other, ((update st.inode ino ⟨1, isDir⟩ : Nat → Inode) other).isDir =
      if other = ino then isDir else (st.inode other).isDir := by
    intro other
    by_cases same : other = ino
    · subst same
      rw [update_self, if_pos rfl]
    · rw [update_of_ne same, if_neg same]
  have kept := sound.filter_fresh free
  cases isDir with
  | false =>
    constructor
    · rfl
    · exact kind
    · intro other
      exact initialised _ _ other
    · simp only [inodeCreate, inodeInitialise, dirAddEntry, kept, Bool.false_eq_true, if_false,
        List.append_nil]
  | true =>
    constructor
    · rfl
    · intro other
      simp only [inodeCreate, if_true]
      rw [isDir_setLinks]
      exact kind other
    · intro other
      simp only [inodeCreate, if_true, true_and]
      rw [getLinks_setLinks _ _ _ (by
        refine Nat.lt_of_le_of_lt (Nat.le_of_eq ?_) (room rfl)
        exact congrArg (· + 1) ((initialised _ _ parent).trans (if_neg apart)))]
      by_cases same : other = parent
      · subst same
        rw [if_pos rfl, if_neg apart, if_pos rfl]
        exact congrArg (· + 1) ((initialised _ _ other).trans (if_neg apart))
      · rw [if_neg same, if_neg same, Nat.add_zero]
        exact initialised _ _ other
    · simp only [inodeCreate, inodeInitialise, dirAddEntry, setLinks, kept, if_true,
        List.append_assoc, List.cons_append, List.nil_append]

variable {next : State}

section

variable {st : State} (created : Created st parent name isDir ino next)
include created

/-- The entries after a node was created. -/
theorem Created.mem_iff (entry : Entry) :
    entry ∈ next.entries ↔ entry ∈ st.entries ∨ entry = ⟨parent, name, ino⟩ ∨
      isDir = true ∧ (entry = ⟨ino, dot, ino⟩ ∨ entry = ⟨ino, dotDot, parent⟩) := by
  rw [created.entries]
  cases isDir with
  | false => simp
  | true =>
    simp only [if_true, mem_append, List.mem_cons]
    tauto

theorem Created.nameCount (proper : name ≠ dot) (other : Nat) :
    nameCount next.entries other = nameCount st.entries other +
      (if isDir = true ∧ other = parent then 1 else 0) + if other = ino then 1 else 0 := by
  rw [created.entries, nameCount_concat]
  have counted : (if ino = other ∧ name ≠ dot then 1 else 0) = if other = ino then 1 else 0 := by
    by_cases same : other = ino
    · rw [if_pos same, if_pos ⟨same.symm, proper⟩]
    · rw [if_neg same, if_neg fun both => same both.1.symm]
  congr 1
  cases isDir with
  | false => simp
  | true =>
    rw [if_pos rfl, List.append_cons, nameCount_concat, nameCount_concat]
    simp [dot_ne_dotDot.symm, eq_comm]

/-- A node is created with one name, a directory with its two entries. -/
theorem Created.sound (sound : Sound st)
    (new : NewName st parent name) (free : st.allocated ino = false) : Sound next := by
  obtain ⟨dir, noDot, noDotDot, missing⟩ := new
  have fresh := sound.fresh free
  have known : ∀ other, st.allocated other = true → other ≠ ino := by
    rintro other used rfl
    rw [free] at used
    cases used
  have kept : ∀ other, other ≠ ino → next.allocated other = st.allocated other ∧
      (next.inode other).isDir = (st.inode other).isDir := by
    intro other ne
    rw [created.allocated, created.kind, update_of_ne ne, if_neg ne]
    exact ⟨rfl, rfl⟩
  have kept_dir : ∀ other, IsDirectory st other → IsDirectory next other := by
    intro other dir
    obtain ⟨used, kind⟩ := kept other (known other dir.1)
    exact ⟨used.trans dir.1, kind.trans dir.2⟩
  have itself : next.allocated ino = true ∧ (next.inode ino).isDir = isDir := by
    rw [created.allocated, created.kind, update_self, if_pos rfl]
    exact ⟨rfl, rfl⟩
  have proper : Proper ⟨parent, name, ino⟩ := ⟨noDot, noDotDot⟩
  have new_member : ⟨parent, name, ino⟩ ∈ next.entries := (created.mem_iff _).mpr (.inr (.inl rfl))
  have old_member : ∀ entry ∈ st.entries, entry ∈ next.entries := fun entry mem =>
    (created.mem_iff _).mpr (.inl mem)
  have proper_cases : ∀ entry ∈ next.entries, Proper entry →
      entry ∈ st.entries ∨ entry = ⟨parent, name, ino⟩ := by
    intro entry mem proper
    obtain old | new | ⟨-, rfl | rfl⟩ := (created.mem_iff entry).mp mem
    · exact .inl old
    · exact .inr new
    · exact absurd rfl proper.1
    · exact absurd rfl proper.2
  constructor
  · exact kept_dir rootIno sound.root
  · intro entry mem
    obtain old | rfl | ⟨rfl, rfl | rfl⟩ := (created.mem_iff entry).mp mem
    · obtain ⟨above, used⟩ := sound.members entry old
      exact ⟨kept_dir entry.dir above, (kept entry.ino (known _ used)).1.trans used⟩
    · exact ⟨kept_dir parent dir, itself.1⟩
    · exact ⟨itself, itself.1⟩
    · exact ⟨itself, (kept_dir parent dir).1⟩
  · rw [created.entries]
    cases isDir with
    | false =>
      rw [if_neg Bool.false_ne_true, List.append_nil]
      exact distinct_concat sound.distinct _ (lookup_none missing)
    | true =>
      rw [if_pos rfl, List.append_cons st.entries]
      refine distinct_concat (distinct_concat (distinct_concat sound.distinct _ ?_) _ ?_) _ ?_
      · intro other mem same
        exact (fresh other mem).1 (mk.inj same).1
      · intro other mem same
        obtain old | rfl := mem_append.mp mem |>.imp id mem_singleton.mp
        · exact (fresh other old).1 (mk.inj same).1
        · exact dot_ne_dotDot (mk.inj same).2
      · intro other mem same
        simp only [mem_append, mem_singleton] at mem
        obtain (old | rfl) | rfl := mem
        · exact lookup_none missing other old same
        iterate 2
          · exact known parent dir.1 (mk.inj same).1.symm
  · intro other used
    rw [created.links, created.nameCount noDot]
    by_cases same : other = ino
    · subst same
      rw [if_pos rfl, if_pos rfl, sound.nameCount_fresh free,
        if_neg fun both => known parent dir.1 both.2.symm]
    · rw [if_neg same, if_neg same, sound.links other ((kept other same).1 ▸ used)]
      rfl
  · intro entry mem dotted
    obtain old | rfl | ⟨rfl, rfl | rfl⟩ := (created.mem_iff entry).mp mem
    · exact sound.self entry old dotted
    · exact absurd dotted noDot
    · rfl
    · exact absurd dotted dot_ne_dotDot.symm
  · intro entry mem dotted
    obtain old | rfl | ⟨rfl, rfl | rfl⟩ := (created.mem_iff entry).mp mem
    · obtain ⟨above, inside, rest⟩ := sound.parents entry old dotted
      exact ⟨above, old_member above inside, rest⟩
    · exact absurd dotted noDotDot
    · exact absurd dotted dot_ne_dotDot
    · exact ⟨_, new_member, proper, rfl, rfl⟩
  · intro first one second two proper_first proper_second same kind
    obtain old | rfl := proper_cases first one proper_first
    · obtain other | rfl := proper_cases second two proper_second
      · rw [(kept first.ino (fresh first old).2).2] at kind
        exact sound.single first old second other proper_first proper_second same kind
      · exact absurd same (fresh first old).2
    · obtain other | rfl := proper_cases second two proper_second
      · exact absurd same.symm (fresh second other).2
      · rfl
  · intro entry mem proper
    obtain old | rfl := proper_cases entry mem proper
    · exact sound.top entry old proper
    · exact (known rootIno sound.root.1).symm
  · intro other dir below
    by_cases same : other = ino
    · subst same
      refine ⟨parent, (created.mem_iff _).mpr (.inr (.inr ⟨?_, .inr rfl⟩))⟩
      exact itself.2.symm.trans dir.2
    · obtain ⟨used, kind⟩ := kept other same
      obtain ⟨above, mem⟩ := sound.upward other ⟨used ▸ dir.1, kind ▸ dir.2⟩ below
      exact ⟨above, old_member _ mem⟩
  · intro other used
    by_cases same : other = ino
    · exact .inr ⟨_, new_member, proper, same.symm⟩
    · rw [(kept other same).1] at used
      obtain root | ⟨entry, mem, rest⟩ := sound.named other used
      · exact .inl root
      · exact .inr ⟨entry, old_member entry mem, rest⟩

end

theorem isDirectory_setLinks (st : State) (ino links other : Nat) :
    IsDirectory (setLinks st ino links) other ↔ IsDirectory st other := by
  rw [IsDirectory, isDir_setLinks]
  rfl

namespace Sound

variable {st : State}

theorem file_proper (sound : Sound st) (mem : entry ∈ st.entries)
    (file : (st.inode entry.ino).isDir = false) : Proper entry := by
  constructor
  · intro dotted
    have dir := (sound.members entry mem).1.2
    rw [← sound.self entry mem dotted, file] at dir
    cases dir
  · intro dotted
    obtain ⟨above, present, -, -, same⟩ := sound.parents entry mem dotted
    have dir := (sound.members above present).1.2
    rw [same, file] at dir
    cases dir

/-- A file gets another name. -/
theorem addName (sound : Sound st)
    (new : NewName st parent name) (used : st.allocated target = true)
    (file : (st.inode target).isDir = false) (room : getLinks st target + 1 < 0xffff) :
    Sound (setLinks (dirAddEntry st parent name target) target (getLinks st target + 1)) := by
  obtain ⟨dir, noDot, noDotDot, missing⟩ := new
  have mem_iff : ∀ entry, entry ∈ st.entries ++ [⟨parent, name, target⟩] ↔
      entry ∈ st.entries ∨ entry = ⟨parent, name, target⟩ := by
    intro entry
    rw [mem_append, mem_singleton]
  have old : ∀ entry ∈ st.entries, entry ∈ st.entries ++ [⟨parent, name, target⟩] :=
    fun entry mem => (mem_iff entry).mpr (.inl mem)
  constructor
  · exact (isDirectory_setLinks _ _ _ _).mpr sound.root
  · intro entry mem
    rw [isDirectory_setLinks]
    obtain mem | rfl := (mem_iff entry).mp mem
    · exact sound.members entry mem
    · exact ⟨dir, used⟩
  · exact distinct_concat sound.distinct _ (lookup_none missing)
  · intro other allocated
    rw [getLinks_setLinks _ _ _ room]
    refine Eq.trans ?_ (nameCount_concat _ _ _).symm
    rw [← sound.links other allocated]
    by_cases same : other = target
    · subst same
      rw [if_pos rfl, if_pos ⟨rfl, noDot⟩]
    · rw [if_neg same, if_neg fun both => same both.1.symm]
      rfl
  · intro entry mem dotted
    obtain mem | rfl := (mem_iff entry).mp mem
    · exact sound.self entry mem dotted
    · exact absurd dotted noDot
  · intro entry mem dotted
    obtain mem | rfl := (mem_iff entry).mp mem
    · obtain ⟨above, present, rest⟩ := sound.parents entry mem dotted
      exact ⟨above, old above present, rest⟩
    · exact absurd dotted noDotDot
  · intro first one second two properFirst properSecond same kind
    rw [isDir_setLinks] at kind
    obtain one | rfl := (mem_iff first).mp one
    · obtain two | rfl := (mem_iff second).mp two
      · exact sound.single first one second two properFirst properSecond same kind
      · rw [same] at kind
        exact absurd (kind.symm.trans file) (by decide)
    · exact absurd (kind.symm.trans file) (by decide)
  · intro entry mem proper
    obtain mem | rfl := (mem_iff entry).mp mem
    · exact sound.top entry mem proper
    · rintro rfl
      exact absurd (sound.root.2.symm.trans file) (by decide)
  · intro ino dir below
    rw [isDirectory_setLinks] at dir
    obtain ⟨above, mem⟩ := sound.upward ino dir below
    exact ⟨above, old _ mem⟩
  · intro ino allocated
    obtain root | ⟨entry, mem, rest⟩ := sound.named ino allocated
    · exact .inl root
    · exact .inr ⟨entry, old entry mem, rest⟩

/-- A file loses one of its names. -/
theorem dropName (sound : Sound st) (mem : entry ∈ st.entries)
    (file : (st.inode entry.ino).isDir = false) (more : 1 < getLinks st entry.ino) :
    Sound (setLinks { st with entries := st.entries.erase entry } entry.ino
      (getLinks st entry.ino - 1)) := by
  have proper := sound.file_proper mem file
  have bound := getLinks_lt st entry.ino
  have mem_iff : ∀ other, other ∈ st.entries.erase entry ↔
      other ≠ entry ∧ other ∈ st.entries := fun other => sound.nodup.mem_erase_iff
  have old : ∀ other ∈ st.entries.erase entry, other ∈ st.entries :=
    fun other mem => ((mem_iff other).mp mem).2
  have counts : ∀ ino, st.allocated ino = true →
      getLinks (setLinks { st with entries := st.entries.erase entry } entry.ino
        (getLinks st entry.ino - 1)) ino = nameCount (st.entries.erase entry) ino := by
    intro ino allocated
    have count := sound.links ino allocated
    rw [nameCount_erase mem] at count
    rw [getLinks_setLinks _ _ _ (by omega)]
    by_cases same : ino = entry.ino
    · subst same
      rw [if_pos ⟨rfl, proper.1⟩] at count
      rw [if_pos rfl]
      omega
    · rw [if_neg fun both => same both.1.symm] at count
      rw [if_neg same]
      exact count
  constructor
  · exact (isDirectory_setLinks _ _ _ _).mpr sound.root
  · intro other present
    rw [isDirectory_setLinks]
    exact sound.members other (old other present)
  · exact sound.distinct.sublist (erase_sublist.map _)
  · exact counts
  · intro other present dotted
    exact sound.self other (old other present) dotted
  · intro other present dotted
    obtain ⟨above, inside, properAbove, same, rest⟩ := sound.parents other (old other present) dotted
    refine ⟨above, (mem_iff above).mpr ⟨?_, inside⟩, properAbove, same, rest⟩
    rintro rfl
    have dir := (sound.members other (old other present)).1.2
    rw [← same, file] at dir
    cases dir
  · intro first one second two properFirst properSecond same kind
    rw [isDir_setLinks] at kind
    exact sound.single first (old first one) second (old second two) properFirst properSecond same
      kind
  · intro other present properOther
    exact sound.top other (old other present) properOther
  · intro ino dir below
    rw [isDirectory_setLinks] at dir
    obtain ⟨above, inside⟩ := sound.upward ino dir below
    refine ⟨above, (mem_iff _).mpr ⟨?_, inside⟩⟩
    rintro rfl
    exact proper.2 rfl
  · intro ino allocated
    by_cases same : ino = entry.ino
    · have remaining : 0 < nameCount (st.entries.erase entry) ino := by
        have count := counts ino allocated
        rw [getLinks_setLinks _ _ _ (by omega), if_pos same] at count
        omega
      obtain ⟨other, present, named, -⟩ := nameCount_pos.mp remaining
      refine .inr ⟨other, present, sound.file_proper (old other present) ?_, named⟩
      rw [named, same]
      exact file
    · obtain root | ⟨other, present, properOther, named⟩ := sound.named ino allocated
      · exact .inl root
      · refine .inr ⟨other, (mem_iff other).mpr ⟨?_, present⟩, properOther, named⟩
        rintro rfl
        exact same named.symm

/-- A node is deleted with the only entry that names it from outside. -/
theorem delete (sound : Sound st) (mem : entry ∈ st.entries) (proper : Proper entry) (alone
      : ∀ other ∈ st.entries, other.ino = entry.ino → other = entry ∨ other.dir = entry.ino)
    (inner : ∀ other ∈ st.entries, other.dir = entry.ino → ¬ Proper other)
    (allocated : next.allocated = update st.allocated entry.ino false)
    (kind : ∀ ino, ino ≠ entry.ino → (next.inode ino).isDir = (st.inode ino).isDir) (entries :
      next.entries = (st.entries.erase entry).filter fun other => decide (other.dir ≠ entry.ino))
      (links : ∀ ino, ino ≠ entry.ino → st.allocated ino = true → getLinks next ino = nameCount
      next.entries ino) : Sound next := by
  have mem_iff : ∀ other, other ∈ next.entries ↔
      (other ≠ entry ∧ other ∈ st.entries) ∧ other.dir ≠ entry.ino := by
    intro other
    rw [entries, mem_filter, sound.nodup.mem_erase_iff, decide_eq_true_iff]
  have old : ∀ other ∈ next.entries, other ∈ st.entries ∧ other.dir ≠ entry.ino ∧
      other.ino ≠ entry.ino := by
    intro other present
    obtain ⟨⟨ne, inside⟩, outside⟩ := (mem_iff other).mp present
    refine ⟨inside, outside, fun same => ?_⟩
    obtain equal | within := alone other inside same
    · exact ne equal
    · exact outside within
  have used : ∀ ino, next.allocated ino = true ↔ ino ≠ entry.ino ∧ st.allocated ino = true := by
    intro ino
    rw [allocated]
    by_cases same : ino = entry.ino
    · rw [same, update_self]
      exact ⟨fun impossible => absurd impossible Bool.false_ne_true, fun both => absurd rfl both.1⟩
    · rw [update_of_ne same]
      exact ⟨fun known => ⟨same, known⟩, fun both => both.2⟩
  have dir : ∀ ino, ino ≠ entry.ino → (IsDirectory next ino ↔ IsDirectory st ino) := by
    intro ino ne
    rw [IsDirectory, IsDirectory, used, kind ino ne]
    tauto
  constructor
  · exact (dir rootIno (sound.top entry mem proper).symm).mpr sound.root
  · intro other present
    obtain ⟨inside, outside, elsewhere⟩ := old other present
    obtain ⟨above, target⟩ := sound.members other inside
    exact ⟨(dir other.dir outside).mpr above, (used other.ino).mpr ⟨elsewhere, target⟩⟩
  · rw [entries]
    exact sound.distinct.sublist ((List.filter_sublist.trans erase_sublist).map _)
  · intro ino known
    obtain ⟨ne, known⟩ := (used ino).mp known
    exact links ino ne known
  · intro other present dotted
    exact sound.self other (old other present).1 dotted
  · intro other present dotted
    obtain ⟨inside, outside, elsewhere⟩ := old other present
    obtain ⟨above, there, properAbove, same, up⟩ := sound.parents other inside dotted
    refine ⟨above, (mem_iff above).mpr ⟨⟨?_, there⟩, ?_⟩, properAbove, same, up⟩
    · rintro rfl
      exact outside same.symm
    · rw [up]
      exact elsewhere
  · intro first one second two properFirst properSecond same directoryFirst
    obtain ⟨insideFirst, -, elsewhere⟩ := old first one
    rw [kind first.ino elsewhere] at directoryFirst
    exact sound.single first insideFirst second (old second two).1 properFirst properSecond same
      directoryFirst
  · intro other present properOther
    exact sound.top other (old other present).1 properOther
  · intro ino known below
    have ne := ((used ino).mp known.1).1
    obtain ⟨above, inside⟩ := sound.upward ino ((dir ino ne).mp known) below
    refine ⟨above, (mem_iff _).mpr ⟨⟨?_, inside⟩, ne⟩⟩
    rintro rfl
    exact proper.2 rfl
  · intro ino known
    obtain ⟨ne, known⟩ := (used ino).mp known
    obtain root | ⟨other, inside, properOther, named⟩ := sound.named ino known
    · exact .inl root
    · refine .inr ⟨other, (mem_iff other).mpr ⟨⟨?_, inside⟩, ?_⟩, properOther, named⟩
      · rintro rfl
        exact ne named.symm
      · exact fun within => inner other inside within properOther

/-- The last name of a file is removed with it. -/
theorem deleteFile (sound : Sound st) (mem : entry ∈ st.entries)
    (file : (st.inode entry.ino).isDir = false) (last : getLinks st entry.ino ≤ 1) :
    Sound (inodeDelete { st with entries := st.entries.erase entry } entry.ino) := by
  have proper := sound.file_proper mem file
  have none_left : nameCount (st.entries.erase entry) entry.ino = 0 := by
    have count := sound.links entry.ino (sound.members entry mem).2
    rw [nameCount_erase mem, if_pos ⟨rfl, proper.1⟩] at count
    omega
  have outside : ∀ other ∈ st.entries, other.dir ≠ entry.ino := by
    intro other inside same
    have dir := (sound.members other inside).1.2
    rw [same, file] at dir
    cases dir
  have kept : ((st.entries.erase entry).filter fun other => decide (other.dir ≠ entry.ino)) =
      st.entries.erase entry := by
    rw [List.filter_eq_self]
    intro other present
    exact decide_eq_true (outside other (List.mem_of_mem_erase present))
  refine sound.delete mem proper ?_ ?_ rfl ?_ rfl ?_
  · intro other inside same
    by_contra apart
    have ne : other ≠ entry := fun equal => apart (.inl equal)
    have remaining : 0 < nameCount (st.entries.erase entry) entry.ino :=
      nameCount_pos.mpr ⟨other, sound.nodup.mem_erase_iff.mpr ⟨ne, inside⟩, same,
        (sound.file_proper inside (same ▸ file)).1⟩
    omega
  · intro other inside within
    exact absurd within (outside other inside)
  · intro ino ne
    rw [inodeDelete]
    dsimp only
    rw [update_of_ne ne]
  · intro ino ne allocated
    have count := sound.links ino allocated
    rw [nameCount_erase mem, if_neg fun both => ne both.1.symm] at count
    simp only [getLinks, inodeDelete, update_of_ne ne, kept]
    exact count

/-- An empty directory has its own entry and that of its parent only. -/
theorem empty_cases (empty : dirEmpty st dir = true) :
    ∀ entry ∈ st.entries, entry.dir = dir → entry.name = dot ∨ entry.name = dotDot := by
  intro entry mem
  exact of_decide_eq_true (List.all_eq_true.mp empty entry mem)

section

variable (sound : Sound st)
include sound

/-- The entry for the parent in a directory names the directory with its name. -/
theorem parent_eq (mem : entry ∈ st.entries) (proper : Proper entry)
    (dir : (st.inode entry.ino).isDir = true)
    (up : ⟨entry.ino, dotDot, parent⟩ ∈ st.entries) : parent = entry.dir := by
  obtain ⟨above, inside, properAbove, same, there⟩ := sound.parents _ up rfl
  have equal := sound.single entry mem above inside proper properAbove same.symm dir
  rw [equal]
  exact there.symm

/-- Without an empty directory its parent has one name less. -/
theorem nameCount_delete (mem : entry ∈ st.entries)
    (proper : Proper entry) (dir : (st.inode entry.ino).isDir = true)
    (empty : dirEmpty st entry.ino = true) (ne : ino ≠ entry.ino) :
    nameCount st.entries ino = nameCount ((st.entries.erase entry).filter fun other =>
        decide (other.dir ≠ entry.ino)) ino + if entry.dir = ino then 1 else 0 := by
  obtain ⟨parent, up⟩ := sound.upward entry.ino ⟨(sound.members entry mem).2, dir⟩
    (sound.top entry mem proper)
  obtain rfl := sound.parent_eq mem proper dir up
  rw [nameCount_erase mem, if_neg fun both => ne both.1.symm, Nat.add_zero, nameCount,
    List.countP_eq_countP_filter_add _ _ fun other => decide (other.dir ≠ entry.ino)]
  congr 1
  -- What is left are the entries in the dir itself.
  have inside : ⟨entry.ino, dotDot, entry.dir⟩ ∈ (st.entries.erase entry).filter fun other =>
      !decide (other.dir ≠ entry.ino) := by
    rw [mem_filter, sound.nodup.mem_erase_iff]
    refine ⟨⟨?_, up⟩, by simp⟩
    intro equal
    rw [← equal] at proper
    exact proper.2 rfl
  have counted := nameCount_erase inside ino
  rw [nameCount] at counted
  rw [counted]
  have nothing : nameCount (((st.entries.erase entry).filter fun other =>
      !decide (other.dir ≠ entry.ino)).erase ⟨entry.ino, dotDot, entry.dir⟩) ino = 0 := by
    by_contra some_name
    obtain ⟨other, present, -, named⟩ := nameCount_pos.mp (Nat.pos_of_ne_zero some_name)
    rw [((sound.nodup.erase entry).filter _).mem_erase_iff, mem_filter] at present
    obtain ⟨apart, left, within⟩ := present
    have within : other.dir = entry.ino := by simpa using within
    have old := List.mem_of_mem_erase left
    obtain dotted | dotted := empty_cases empty other old within
    · exact named dotted
    · exact apart (sound.unique old up within dotted)
  rw [nothing, Nat.zero_add]
  by_cases same : entry.dir = ino
  · rw [if_pos ⟨same, dot_ne_dotDot.symm⟩, if_pos same]
  · rw [if_neg fun both => same both.1, if_neg same]

/-- An empty directory has one name. -/
theorem empty_links (mem : entry ∈ st.entries) (proper : Proper entry)
    (dir : (st.inode entry.ino).isDir = true) (empty : dirEmpty st entry.ino = true) :
    (∀ other ∈ st.entries, other.ino = entry.ino → other = entry ∨ other.dir = entry.ino) ∧
      getLinks st entry.ino = 1 := by
  have cases := empty_cases empty
  have alone : ∀ other ∈ st.entries, other.ino = entry.ino → other = entry ∨ other.name = dot := by
    intro other inside same
    by_cases dotted : other.name = dot
    · exact .inr dotted
    by_cases parent : other.name = dotDot
    · obtain ⟨above, there, properAbove, -, up⟩ := sound.parents other inside parent
      obtain bad | bad := cases above there (up.trans same)
      · exact absurd bad properAbove.1
      · exact absurd bad properAbove.2
    · refine .inl (sound.single other inside entry mem ⟨dotted, parent⟩ proper same ?_)
      rw [same]
      exact dir
  constructor
  · intro other inside same
    obtain equal | dotted := alone other inside same
    · exact .inl equal
    · exact .inr ((sound.self other inside dotted).symm.trans same)
  · rw [sound.links entry.ino (sound.members entry mem).2, nameCount_erase mem,
      if_pos ⟨rfl, proper.1⟩]
    by_contra more
    have some_name : 0 < nameCount (st.entries.erase entry) entry.ino := by omega
    obtain ⟨other, present, same, named⟩ := nameCount_pos.mp some_name
    obtain ⟨apart, inside⟩ := sound.nodup.mem_erase_iff.mp present
    obtain equal | dotted := alone other inside same
    · exact apart equal
    · exact named dotted

/-- An empty directory is removed. -/
theorem deleteDirectory (mem : entry ∈ st.entries)
    (proper : Proper entry) (dir : (st.inode entry.ino).isDir = true)
    (empty : dirEmpty st entry.ino = true) :
    Sound (setLinks (inodeDelete { st with entries := st.entries.erase entry } entry.ino)
      entry.dir (getLinks st entry.dir - 1)) := by
  have bound := getLinks_lt st entry.dir
  refine sound.delete mem proper (sound.empty_links mem proper dir empty).1 ?_ rfl ?_ rfl ?_
  · intro other inside within properOther
    obtain bad | bad := empty_cases empty other inside within
    · exact properOther.1 bad
    · exact properOther.2 bad
  · intro ino ne
    rw [isDir_setLinks, inodeDelete]
    dsimp only
    rw [update_of_ne ne]
  · intro ino ne allocated
    have count := sound.links ino allocated
    rw [sound.nameCount_delete mem proper dir empty ne] at count
    rw [getLinks_setLinks _ _ _ (by omega)]
    by_cases same : ino = entry.dir
    · subst same
      rw [if_pos rfl] at count
      rw [if_pos rfl, count, Nat.add_sub_cancel]
      rfl
    · rw [if_neg fun equal => same equal.symm, Nat.add_zero] at count
      rw [if_neg same]
      simp only [getLinks, inodeDelete, update_of_ne ne]
      exact count

/-- The parent of a directory has more than one name, unless it is the root. -/
theorem parent_links (mem : entry ∈ st.entries) (proper : Proper entry)
    (dir : (st.inode entry.ino).isDir = true) (empty : dirEmpty st entry.ino = true)
    (careful : entry.dir = rootIno → getLinks st rootIno ≠ 1) :
    entry.dir ≠ entry.ino ∧ 1 < getLinks st entry.dir := by
  have inner : ∀ other ∈ st.entries, other.dir = entry.ino → ¬ Proper other := by
    intro other inside within properOther
    obtain bad | bad := empty_cases empty other inside within
    · exact properOther.1 bad
    · exact properOther.2 bad
  have outside : entry.dir ≠ entry.ino := fun same => inner entry mem same proper
  have used := (sound.members entry mem).1.1
  have count := sound.links entry.dir used
  rw [sound.nameCount_delete mem proper dir empty outside, if_pos rfl] at count
  refine ⟨outside, ?_⟩
  obtain root | ⟨other, inside, properOther, named⟩ := sound.named entry.dir used
  · have several := careful root
    rw [← root] at several
    omega
  · have more : 0 < nameCount ((st.entries.erase entry).filter fun other =>
        decide (other.dir ≠ entry.ino)) entry.dir := by
      refine nameCount_pos.mpr ⟨other, ?_, named, properOther.1⟩
      rw [mem_filter, sound.nodup.mem_erase_iff, decide_eq_true_iff]
      refine ⟨⟨?_, inside⟩, fun within => inner other inside within properOther⟩
      rintro rfl
      exact outside named.symm
    omega

/-- A name is removed, and the node with its last name. -/
theorem rmnod (found : locate st parent name = some target)
    (careful : parent = rootIno → (st.inode target).isDir = true → getLinks st rootIno ≠ 1)
    (taken : rmnod st parent target name = some next) : Sound next := by
  obtain ⟨noDot, mem⟩ := locate_mem found
  rw [Link.rmnod] at taken
  split at taken
  next => cases taken
  next below =>
    rw [unlink, dirDelEntry, if_pos mem] at taken
    cases kind : (st.inode target).isDir with
    | false =>
      simp only [kind, Option.map_some] at taken
      cases taken
      rw [dropLink, getLinks_entries]
      by_cases more : 1 < getLinks st target
      · rw [if_pos more]
        exact sound.dropName mem kind more
      · rw [if_neg more, if_neg Bool.false_ne_true]
        exact sound.deleteFile mem kind (Nat.le_of_not_lt more)
    | true =>
      cases empty : dirEmpty st target with
      | false => simp [kind, empty] at taken
      | true =>
        have proper : Proper ⟨parent, name, target⟩ := by
          refine ⟨noDot, fun dotted => ?_⟩
          obtain ⟨above, inside, properAbove, -, up⟩ := sound.parents _ mem dotted
          obtain bad | bad := empty_cases empty above inside up
          · exact properAbove.1 bad
          · exact properAbove.2 bad
        obtain ⟨apart, several⟩ := sound.parent_links mem proper kind empty
          fun root => careful root kind
        have single := (sound.empty_links mem proper kind empty).2
        simp only [kind, empty, Option.map_some] at taken
        cases taken
        have parent_count : getLinks (inodeDelete
            { st with entries := st.entries.erase ⟨parent, name, target⟩ } target) parent =
              getLinks st parent := by
          simp only [getLinks, inodeDelete, update_of_ne apart]
        rw [dropLink, getLinks_entries, single, if_neg (Nat.lt_irrefl 1), if_pos rfl, parent_count]
        dsimp only
        rw [if_pos several]
        exact sound.deleteDirectory mem proper kind empty

/-- A directory gets another name in its directory. -/
theorem renameDirectory {oldName newName : Name} (mem : ⟨parent, oldName, target⟩ ∈ st.entries)
    (proper : Proper ⟨parent, oldName, target⟩) (new : NewName st parent newName)
    (dir : (st.inode target).isDir = true) (allocated : next.allocated = st.allocated)
    (kind : ∀ ino, (next.inode ino).isDir = (st.inode ino).isDir)
    (links : ∀ ino, getLinks next ino = getLinks st ino) (entries : next.entries = (st.entries
      ++ [(⟨parent, newName, target⟩ : Entry)]).erase ⟨parent, oldName, target⟩) : Sound next := by
  obtain ⟨above, noDot, noDotDot, missing⟩ := new
  have properNew : Proper ⟨parent, newName, target⟩ := ⟨noDot, noDotDot⟩
  have absent : ⟨parent, newName, target⟩ ∉ st.entries := fun inside =>
    lookup_none missing _ inside rfl
  have distinct : ((st.entries ++ [(⟨parent, newName, target⟩ : Entry)]).map Entry.key).Nodup :=
    distinct_concat sound.distinct _ (lookup_none missing)
  have mem_iff : ∀ other, other ∈ next.entries ↔ other ≠ ⟨parent, oldName, target⟩ ∧
      (other ∈ st.entries ∨ other = ⟨parent, newName, target⟩) := by
    intro other
    rw [entries, distinct.of_map.mem_erase_iff, mem_append, mem_singleton]
  have there : ⟨parent, newName, target⟩ ∈ next.entries := by
    refine (mem_iff _).mpr ⟨?_, .inr rfl⟩
    intro equal
    exact absent (equal ▸ mem)
  have isDirectory : ∀ ino, IsDirectory next ino ↔ IsDirectory st ino := by
    intro ino
    rw [IsDirectory, IsDirectory, allocated, kind]
  constructor
  · exact (isDirectory rootIno).mpr sound.root
  · intro other present
    rw [isDirectory, allocated]
    obtain ⟨-, old | rfl⟩ := (mem_iff other).mp present
    · exact sound.members other old
    · have known := sound.members _ mem
      exact known
  · rw [entries]
    exact distinct.sublist (erase_sublist.map _)
  · intro ino used
    rw [allocated] at used
    have count := nameCount_erase
      (List.mem_append_left [(⟨parent, newName, target⟩ : Entry)] mem) ino
    rw [nameCount_concat] at count
    rw [links, sound.links ino used, entries]
    have same : (if target = ino ∧ newName ≠ dot then 1 else 0) =
        if target = ino ∧ oldName ≠ dot then 1 else 0 := by
      by_cases equal : target = ino
      · rw [if_pos ⟨equal, noDot⟩, if_pos ⟨equal, proper.1⟩]
      · rw [if_neg fun both => equal both.1, if_neg fun both => equal both.1]
    dsimp only at count
    omega
  · intro other present dotted
    obtain ⟨-, old | rfl⟩ := (mem_iff other).mp present
    · exact sound.self other old dotted
    · exact absurd dotted noDot
  · intro other present dotted
    obtain ⟨-, old | rfl⟩ := (mem_iff other).mp present
    · obtain ⟨upper, inside, properUpper, same, up⟩ := sound.parents other old dotted
      by_cases renamed : upper = ⟨parent, oldName, target⟩
      · subst renamed
        exact ⟨_, there, properNew, same, up⟩
      · exact ⟨upper, (mem_iff upper).mpr ⟨renamed, .inl inside⟩, properUpper, same, up⟩
    · exact absurd dotted noDotDot
  · intro first one second two properFirst properSecond same directoryFirst
    rw [kind] at directoryFirst
    obtain ⟨notOld, old | rfl⟩ := (mem_iff first).mp one
    · obtain ⟨-, other | rfl⟩ := (mem_iff second).mp two
      · exact sound.single first old second other properFirst properSecond same directoryFirst
      · exact absurd (sound.single first old _ mem properFirst proper same directoryFirst) notOld
    · obtain ⟨notOld, other | rfl⟩ := (mem_iff second).mp two
      · exact absurd (sound.single _ mem second other proper properSecond same dir).symm
          notOld
      · rfl
  · intro other present properOther
    obtain ⟨-, old | rfl⟩ := (mem_iff other).mp present
    · exact sound.top other old properOther
    · have below := sound.top _ mem proper
      exact below
  · intro ino known below
    obtain ⟨upper, inside⟩ := sound.upward ino ((isDirectory ino).mp known) below
    refine ⟨upper, (mem_iff _).mpr ⟨?_, .inl inside⟩⟩
    intro equal
    exact proper.2 (Entry.mk.inj equal).2.1.symm
  · intro ino used
    rw [allocated] at used
    obtain root | ⟨other, inside, properOther, named⟩ := sound.named ino used
    · exact .inl root
    · by_cases renamed : other = ⟨parent, oldName, target⟩
      · subst renamed
        exact .inr ⟨_, there, properNew, named⟩
      · exact .inr ⟨other, (mem_iff other).mpr ⟨renamed, .inl inside⟩, properOther, named⟩

/-- A node gets another name, a directory only in the directory where it is. -/
theorem rename {oldParent newParent : Nat} {oldName newName : Name}
    (found : locate st oldParent oldName = some ino) (new : NewName st newParent newName)
    (careful : Careful st (.rename oldParent oldName newParent newName))
    (taken : rename st oldParent ino oldName newParent newName = some next) : Sound next := by
  obtain ⟨noDot, mem⟩ := locate_mem found
  obtain ⟨noDotDot, limits⟩ := careful
  obtain ⟨room, same⟩ := limits ino found
  have proper : Proper ⟨oldParent, oldName, ino⟩ := ⟨noDot, noDotDot⟩
  have used := (sound.members _ mem).2
  have some_name : 0 < getLinks st ino := by
    rw [sound.links ino used]
    exact nameCount_pos.mpr ⟨_, mem, rfl, noDot⟩
  have linked : link st newName newParent ino true = some (setLinks
      (dirAddEntry st newParent newName ino) ino (getLinks st ino + 1)) := by
    rfl
  have kept : ⟨oldParent, oldName, ino⟩ ∈ (setLinks (dirAddEntry st newParent newName ino) ino
      (getLinks st ino + 1)).entries := List.mem_append_left _ mem
  have count : getLinks (setLinks (dirAddEntry st newParent newName ino) ino
      (getLinks st ino + 1)) ino = getLinks st ino + 1 := by
    rw [getLinks_setLinks _ _ _ room, if_pos rfl]
  have done : next = setLinks { setLinks (dirAddEntry st newParent newName ino) ino
      (getLinks st ino + 1) with
        entries := (st.entries ++ [(⟨newParent, newName, ino⟩ : Entry)]).erase
          ⟨oldParent, oldName, ino⟩ } ino (getLinks st ino) := by
    rw [Link.rename, linked] at taken
    simp only [bind, Option.bind, unlink, reduceCtorEq, false_and, or_false, and_false, if_false,
      dirDelEntry, if_pos kept, Option.map_some, dropLink, getLinks_entries, count] at taken
    rw [if_pos (by omega), Nat.add_sub_cancel] at taken
    cases taken
    rfl
  cases kind : (st.inode ino).isDir with
  | false =>
    have added := sound.addName new used kind room
    have dropped := added.dropName kept (by rw [isDir_setLinks]; exact kind) (by
      rw [count]
      omega)
    rw [count, Nat.add_sub_cancel] at dropped
    rw [done]
    exact dropped
  | true =>
    obtain rfl := same kind
    refine sound.renameDirectory mem proper new kind ?_ ?_ ?_ ?_
    · rw [done]
      rfl
    · intro other
      rw [done, isDir_setLinks]
      exact isDir_setLinks _ _ _ _
    · intro other
      rw [done, getLinks_setLinks _ _ _ (getLinks_lt _ _)]
      by_cases equal : other = ino
      · rw [if_pos equal, equal]
      · have unchanged := getLinks_setLinks (dirAddEntry st oldParent newName ino) ino other room
        rw [if_neg equal] at unchanged
        rw [if_neg equal]
        exact unchanged
    · rw [done]
      rfl

end

/-- A call that succeeds keeps the counts. -/
theorem step (sound : Sound st) {op : Operation} (careful : Careful st op)
    (taken : step st op = some next) : Sound next := by
  cases op with
  | mknod parent name isDir ino =>
    rw [Link.step] at taken
    split at taken
    next offered =>
      cases taken
      obtain ⟨new, free⟩ := offered
      have apart : parent ≠ ino := by
        rintro rfl
        exact absurd (new.1.1.symm.trans free) (by decide)
      exact (sound.created name free apart careful).sound sound new free
    next => cases taken
  | link parent name target =>
    rw [Link.step] at taken
    split at taken
    next offered =>
      rw [link] at taken
      split at taken
      next => cases taken
      next file =>
        cases taken
        have file : (st.inode target).isDir = false := by
          rw [← Bool.not_eq_true]
          exact fun dir => file ⟨rfl, dir⟩
        exact sound.addName offered.1 offered.2 file careful
    next => cases taken
  | unlink parent name =>
    obtain ⟨target, found, removed⟩ := Option.bind_eq_some_iff.mp taken
    exact sound.rmnod found (careful target found) removed
  | rmdir parent name =>
    obtain ⟨target, found, removed⟩ := Option.bind_eq_some_iff.mp taken
    split at removed
    next => exact sound.rmnod found (careful target found) removed
    next => cases removed
  | rename oldParent oldName newParent newName =>
    obtain ⟨ino, found, renamed⟩ := Option.bind_eq_some_iff.mp taken
    split at renamed
    next new => exact sound.rename found new careful renamed
    next => cases renamed

end Sound

theorem Initial.sound (begins : Initial st) : Sound st := by
  have known : ∀ ino, st.allocated ino = true → ino = rootIno := by
    intro ino used
    rw [begins.allocated] at used
    exact of_decide_eq_true used
  have only : ∀ entry ∈ st.entries, entry = ⟨rootIno, dot, rootIno⟩ := by
    intro entry mem
    rw [begins.entries] at mem
    exact mem_singleton.mp mem
  have root : IsDirectory st rootIno := by
    rw [IsDirectory, begins.allocated, begins.root]
    exact ⟨rfl, rfl⟩
  constructor
  · exact root
  · intro entry mem
    rw [only entry mem]
    exact ⟨root, root.1⟩
  · rw [begins.entries]
    exact List.nodup_singleton _
  · intro ino used
    obtain rfl := known ino used
    rw [getLinks, begins.root, begins.entries]
    rfl
  · intro entry mem _
    rw [only entry mem]
  · intro entry mem dotted
    rw [only entry mem] at dotted
    exact absurd dotted dot_ne_dotDot
  · intro first one second two _ _ _ _
    rw [only first one, only second two]
  · intro entry mem proper
    rw [only entry mem] at proper
    exact absurd rfl proper.1
  · intro ino dir below
    exact absurd (known ino dir.1) below
  · intro ino used
    exact .inl (known ino used)

/-- In every run of careful calls the link count of an inode is the number of entries that
name it, and an inode is allocated if it is the root or has a proper name. A directory
other than the root has an entry for its parent, and this names the directory that
contains it. -/
theorem runs_count_links (past : List State) (state : State)
    (run : Trace Initial Careful step past state) :
    (∀ ino, state.allocated ino = true → getLinks state ino = nameCount state.entries ino) ∧
    (∀ ino, IsDirectory state ino → ino ≠ rootIno →
      ∃ parent, ⟨ino, dotDot, parent⟩ ∈ state.entries) ∧
    (∀ entry ∈ state.entries, entry.name = dotDot →
      (∃ above ∈ state.entries, Proper above ∧ above.ino = entry.dir) ∧
        ∀ above ∈ state.entries, Proper above → above.ino = entry.dir → above.dir = entry.ino) ∧
    ∀ ino, state.allocated ino = true ↔
      ino = rootIno ∨ ∃ entry ∈ state.entries, Proper entry ∧ entry.ino = ino := by
  have sound : Sound state := by
    refine run.invariant Sound ?_ ?_
    · intro state begins
      exact begins.sound
    · intro state operation next sound careful taken
      exact sound.step careful taken
  refine ⟨sound.links, sound.upward, ?_, ?_⟩
  · intro entry member dotted
    obtain ⟨upper, inside, proper, same, up⟩ := sound.parents entry member dotted
    refine ⟨⟨upper, inside, proper, same⟩, ?_⟩
    intro above present properAbove named
    have directory : (state.inode upper.ino).isDir = true := by
      rw [same]
      exact (sound.members entry member).1.2
    rw [sound.single above present upper inside properAbove proper (named.trans same.symm)
      (by rw [named, ← same]; exact directory)]
    exact up
  · intro ino
    constructor
    · exact sound.named ino
    · rintro (rfl | ⟨entry, member, -, rfl⟩)
      · exact sound.root.1
      · exact (sound.members entry member).2

instance (state : State) (operation : Operation) : Decidable (Careful state operation) :=
  match operation with
  | .mknod .. => inferInstanceAs (Decidable (_ → _))
  | .link .. => inferInstanceAs (Decidable (_ < _))
  | .unlink parent name | .rmdir parent name =>
    inferInstanceAs (Decidable (∀ target ∈ locate state parent name, parent = rootIno →
      (state.inode target).isDir = true → getLinks state rootIno ≠ 1))
  | .rename oldParent oldName newParent _ =>
    inferInstanceAs (Decidable (oldName ≠ dotDot ∧ ∀ ino ∈ locate state oldParent oldName,
      getLinks state ino + 1 < 0xffff ∧
        ((state.inode ino).isDir = true → oldParent = newParent)))

/-- A formatted file system. -/
def start : State where
  allocated ino := decide (ino = rootIno)
  inode _ := ⟨0, true⟩
  entries := [⟨rootIno, dot, rootIno⟩]

theorem start_initial : Initial start where
  allocated _ := rfl
  root := rfl
  entries := rfl

/-- Two directories are made in the root and one in the first of them, which gets another
name and is removed. A file has two names, one is moved and the other is removed. -/
theorem runs_count_links_moved :
    ∃ (past : List State) (state : State), Trace Initial Careful step past state ∧
      ((getLinks state 1, getLinks state 2, getLinks state 5),
        (state.allocated 4, dirLookupIno state 3 [104])) = ((2, 1, 1), (false, some 5)) ∧
      nameCount state.entries 1 = 2 := by
  obtain ⟨past, state, run, seen⟩ := Trace.observe Careful step start start_initial
    [.mknod 1 [97] true 2, .mknod 1 [98] true 3, .mknod 2 [100] true 4, .mknod 2 [102] false 5,
      .link 3 [103] 5, .rename 2 [102] 3 [104], .rename 2 [100] 2 [101], .unlink 3 [103],
      .rmdir 2 [101]]
    (fun state => (state.allocated 1, (getLinks state 1, getLinks state 2, getLinks state 5),
      (state.allocated 4, dirLookupIno state 3 [104])))
    (true, (2, 1, 1), (false, some 5)) (by decide +kernel) (by decide +kernel)
  obtain ⟨used, shown⟩ := mk.inj seen
  obtain ⟨links, -⟩ := runs_count_links past state run
  refine ⟨past, state, run, shown, ?_⟩
  rw [← links 1 used]
  exact (mk.inj (mk.inj shown).1).1

/-- A directory is moved to another directory, and then the first one is removed. The entry
for the parent still names the first one, which stays allocated without a name. -/
theorem moved_directory_keeps_parent :
    ∃ (past : List State) (state : State), Trace Initial (fun _ _ => True) step past state ∧
      (dirLookupIno state 3 [100], dirLookupIno state 4 dotDot, state.allocated 2,
        state.entries.countP fun entry => decide (Proper entry ∧ entry.ino = 2)) =
      (some 4, some 2, true, 0) := by
  exact Trace.observe (fun _ _ => True) step start start_initial
    [.mknod 1 [97] true 2, .mknod 1 [98] true 3, .mknod 2 [100] true 4, .rename 2 [100] 3 [100],
      .rmdir 1 [97]]
    (fun state => (dirLookupIno state 3 [100], dirLookupIno state 4 dotDot, state.allocated 2,
      state.entries.countP fun entry => decide (Proper entry ∧ entry.ino = 2)))
    (some 4, some 2, true, 0) (by decide +kernel) (by decide +kernel)

end Rtems.Rfs.Link
