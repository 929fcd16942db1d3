import Rtems.Library.Cursor
import Rtems.Library.LinkRing

/-!
# The iteration over the user extensions

The extensions that were added are a chain. An iteration holds the lock of the list while it looks for
the next extension, and releases it for the call of the visitor. Meanwhile extensions are added and
removed, by the visitor itself or by others, and other iterations begin and end.
-/

namespace Rtems.UserExtensions

open LinkRing
open Function (update update_of_ne update_self)

universe u v

/-- A node of the chain `Active`. -/
inductive Node (ε : Type u) where
  | head
  | tail
  | extension (extension : ε)
deriving DecidableEq

/-- `Chain_Iterator_direction` -/
inductive Direction where
  | forward
  | backward
deriving DecidableEq

/-- `Chain_Iterator` -/
structure Iterator (ε : Type u) where
  direction : Direction
  position : Node ε

/-- `_User_extensions_List`: the chain, the registry, and the iterators that are in it. -/
structure Control (ε : Type u) (ρ : Type v) where
  active : Links (Node ε)
  registry : List ρ
  iterator : ρ → Iterator ε

variable {ε : Type u} {ρ : Type v}

/-- Where an iteration starts. -/
def Direction.start : Direction → Node ε
  | .forward => .head
  | .backward => .tail

/-- The `end` of an iteration. -/
def Direction.stop : Direction → Node ε
  | .forward => .tail
  | .backward => .head

/-- `_Chain_Iterator_next` -/
def chainIteratorNext (active : Links (Node ε)) (iterator : Iterator ε) : Node ε :=
  match iterator.direction with
  | .forward => active.next iterator.position
  | .backward => active.prev iterator.position

section Operations

variable [DecidableEq ε] [DecidableEq ρ]

/-- The update of one iterator by `_Chain_Iterator_registry_update`. -/
def Iterator.update (active : Links (Node ε)) (node : Node ε) (iterator : Iterator ε) : Iterator ε :=
  if iterator.position = node then
    match iterator.direction with
    | .forward => { iterator with position := active.prev node }
    | .backward => { iterator with position := active.next node }
  else iterator

/-- `_Chain_Iterator_registry_update` -/
def Control.registryUpdate (control : Control ε ρ) (node : Node ε) : Control ε ρ :=
  { control with
    iterator := control.registry.foldl
      (fun iterator run => update iterator run ((iterator run).update control.active node))
      control.iterator }

/-- `_Chain_Iterator_initialize` -/
def Control.iteratorInitialize (control : Control ε ρ) (run : ρ) (direction : Direction) :
    Control ε ρ :=
  { control with
    registry := control.registry ++ [run]
    iterator := update control.iterator run ⟨direction, direction.start⟩ }

/-- `_Chain_Iterator_set_position` -/
def Control.iteratorSetPosition (control : Control ε ρ) (run : ρ) (node : Node ε) : Control ε ρ :=
  { control with
    iterator := update control.iterator run { control.iterator run with position := node } }

/-- `_Chain_Iterator_destroy` -/
def Control.iteratorDestroy (control : Control ε ρ) (run : ρ) : Control ε ρ :=
  { control with registry := control.registry.erase run }

/-- `_User_extensions_Add_set` -/
def Control.addSet (control : Control ε ρ) (extension : ε) : Control ε ρ :=
  { control with active := control.active.insertBefore .tail (.extension extension) }

/-- `_User_extensions_Remove_set` -/
def Control.removeSet (control : Control ε ρ) (extension : ε) : Control ε ρ :=
  let control := control.registryUpdate (.extension extension)
  { control with active := control.active.remove (.extension extension) }

/-- The part of `_User_extensions_Iterate` from the condition of the loop to the call of the visitor,
or to the end: the node that is visited. -/
def Control.iterate (control : Control ε ρ) (run : ρ) : Option (Node ε) × Control ε ρ :=
  let node := chainIteratorNext control.active (control.iterator run)
  if node ≠ (control.iterator run).direction.stop then
    (some node, control.iteratorSetPosition run node)
  else (none, control.iteratorDestroy run)

/-- The list, the runs that are in a visitor, and the extensions that were added and not removed. -/
structure System (ε : Type u) (ρ : Type v) where
  control : Control ε ρ
  running : ρ → Bool
  members : List ε

/-- What happens while the lock of the list is held. -/
inductive Step (ε : Type u) (ρ : Type v) where
  | addSet (extension : ε)
  | removeSet (extension : ε)
  | enter (run : ρ) (direction : Direction)
  | resume (run : ρ)
deriving DecidableEq

/-- A run goes on: it is in a visitor again or at its end. -/
def System.goOn (system : System ε ρ) (run : ρ) : Option (ρ × Node ε) × System ε ρ :=
  match system.control.iterate run with
  | (none, control) =>
    (none, { system with control := control, running := update system.running run false })
  | (some node, control) =>
    (some (run, node),
      { system with control := control, running := update system.running run true })

/-- One step: the visit that it makes. -/
def System.step (system : System ε ρ) : Step ε ρ → Option (ρ × Node ε) × System ε ρ
  | .addSet extension =>
    (none, { system with
      control := system.control.addSet extension, members := system.members ++ [extension] })
  | .removeSet extension =>
    (none, { system with
      control := system.control.removeSet extension
      members := system.members.filter (· ≠ extension) })
  | .enter run direction =>
    { system with control := system.control.iteratorInitialize run direction }.goOn run
  | .resume run => system.goOn run

/-- Steps one after the other: the visits that they make. -/
def System.runs (system : System ε ρ) : List (Step ε ρ) → List (ρ × Node ε) × System ε ρ
  | [] => ([], system)
  | step :: steps =>
    let (visit, next) := system.step step
    let (visits, last) := next.runs steps
    (visit.toList ++ visits, last)

/-- An extension is added that is not on the chain, or one is removed that is; a run is entered that is
not in progress, or one goes on that is. -/
def System.Permitted (system : System ε ρ) : Step ε ρ → Prop
  | .addSet extension => extension ∉ system.members
  | .removeSet extension => extension ∈ system.members
  | .enter run _ => system.running run = false
  | .resume run => system.running run = true

/-- All steps are permitted where they are taken. -/
def System.AllPermitted (system : System ε ρ) : List (Step ε ρ) → Prop
  | [] => True
  | step :: steps => system.Permitted step ∧ (system.step step).2.AllPermitted steps

instance (system : System ε ρ) : DecidablePred system.Permitted
  | .addSet _ => inferInstanceAs (Decidable (_ ∉ _))
  | .removeSet _ => inferInstanceAs (Decidable (_ ∈ _))
  | .enter .. => inferInstanceAs (Decidable (_ = _))
  | .resume _ => inferInstanceAs (Decidable (_ = _))

instance System.AllPermitted.decidable (system : System ε ρ) :
    (steps : List (Step ε ρ)) → Decidable (system.AllPermitted steps)
  | [] => .isTrue trivial
  | step :: steps =>
    have := System.AllPermitted.decidable (system.step step).2 steps
    inferInstanceAs (Decidable (_ ∧ _))

end Operations

/-- The empty list. -/
structure System.Initial (system : System ε ρ) : Prop where
  chain : system.control.active.next .head = .tail ∧ system.control.active.prev .tail = .head
  registry : system.control.registry = []
  running : ∀ run, system.running run = false
  members : system.members = []

/-- The extension of a node. -/
def Node.extension? : Node ε → Option ε
  | .extension found => some found
  | _ => none

/-- The extensions that a run visits. -/
def visited [DecidableEq ρ] (run : ρ) (visits : List (ρ × Node ε)) : List ε :=
  visits.filterMap fun visit => if visit.1 = run then visit.2.extension? else none

/-- A list in the order of a direction. -/
def Direction.order (direction : Direction) (members : List ε) : List ε :=
  match direction with
  | .forward => members
  | .backward => members.reverse

/-- The node of the last extension that was passed. -/
def Direction.node (direction : Direction) (last : Option ε) : Node ε :=
  (last.map .extension).getD direction.start

/-- The iterator of a run stands behind the extensions that its cursor has passed. -/
structure Placed (members : List ε) (iterator : Iterator ε) (cursor : Cursor ε) : Prop where
  items : cursor.items = iterator.direction.order members
  position : iterator.position = iterator.direction.node cursor.passed.getLast?

/-- The nodes of the chain. -/
def nodesOf (members : List ε) : List (Node ε) := members.map .extension

/-- The chain holds the extensions that were added and not removed, and the iterators stand on it. -/
structure Listed (system : System ε ρ) : Prop where
  path : Path system.control.active .head (nodesOf system.members) .tail
  nodup : system.members.Nodup
  registered : system.control.registry.Nodup
  placed : ∀ run ∈ system.control.registry,
    ∃ cursor, Placed system.members (system.control.iterator run) cursor

/-- The registry holds the runs in progress. -/
structure Sound (system : System ε ρ) : Prop extends Listed system where
  running : ∀ run, run ∈ system.control.registry ↔ system.running run = true


theorem final_nodes (members : List ε) :
    final .head (nodesOf members) = Direction.forward.node members.getLast? := by
  rw [final_eq, nodesOf, List.getLast?_map]
  rfl

theorem entry_nodes (members : List ε) :
    entry (nodesOf members) .tail = (members.head?.map Node.extension).getD Node.tail := by
  rw [entry_eq, nodesOf, List.head?_map]

theorem nodesOf_append (front back : List ε) : nodesOf (front ++ back) = nodesOf front ++ nodesOf back :=
  List.map_append

variable {members : List ε} {iterator : Iterator ε} {cursor : Cursor ε} {active : Links (Node ε)}

/-- The chain in front of an iterator and behind it. -/
theorem Placed.backward (placed : Placed members iterator cursor)
    (dir : iterator.direction = .backward) :
    members = cursor.pending.reverse ++ cursor.passed.reverse := by
  have items := placed.items
  rw [dir, Cursor.items] at items
  rw [← List.reverse_append, items]
  exact (List.reverse_reverse members).symm

/-- The next node is the first extension that is pending, or the end. -/
theorem Placed.next (placed : Placed members iterator cursor)
    (path : Path active .head (nodesOf members) .tail) :
    chainIteratorNext active iterator =
      (cursor.pending.head?.map Node.extension).getD iterator.direction.stop := by
  have position := placed.position
  rw [chainIteratorNext]
  cases dir : iterator.direction with
  | forward =>
    have items := placed.items
    rw [dir] at position items
    rw [← show cursor.passed ++ cursor.pending = members from items, nodesOf_append] at path
    rw [position, ← final_nodes, path_next_final active _ _ _ _ path, entry_nodes]
    rfl
  | backward =>
    rw [dir] at position
    rw [placed.backward dir, nodesOf_append] at path
    have here : iterator.position = entry (nodesOf cursor.passed.reverse) .tail := by
      rw [position, entry_nodes, List.head?_reverse]
      rfl
    rw [here, path_prev_entry active _ _ _ _ path, final_nodes, List.getLast?_reverse]
    rfl

/-- Where an iterator goes when its extension is removed. -/
theorem Placed.retreat [DecidableEq ε] (placed : Placed members iterator cursor)
    (path : Path active .head (nodesOf members) .tail) {before : List ε} {ext : ε}
    (whole : cursor.passed = before ++ [ext]) :
    (iterator.update active (.extension ext)).position =
      iterator.direction.node before.getLast? := by
  have here : iterator.position = .extension ext := by
    rw [placed.position, whole, List.getLast?_concat]
    rfl
  rw [Iterator.update, if_pos here]
  cases dir : iterator.direction with
  | forward =>
    have items := placed.items
    rw [dir, Cursor.items, whole, List.append_assoc] at items
    rw [← show before ++ ([ext] ++ cursor.pending) = members from items, nodesOf_append] at path
    exact (path_prev_entry active _ _ _ _ path).trans (final_nodes before)
  | backward =>
    have items := placed.backward dir
    rw [whole, List.reverse_append, ← List.append_assoc] at items
    rw [items, nodesOf_append] at path
    have front : final .head (nodesOf (cursor.pending.reverse ++ [ext].reverse)) =
        .extension ext := by
      rw [final_nodes, List.reverse_singleton, List.getLast?_concat]
      rfl
    have next := path_next_final active _ _ _ _ path
    rw [front, entry_nodes, List.head?_reverse] at next
    exact next

theorem Iterator.update_direction [DecidableEq ε] (node : Node ε) :
    (iterator.update active node).direction = iterator.direction := by
  rw [Iterator.update]
  split
  · split <;> rfl
  · rfl

/-- An iterator after an extension was removed from the chain. -/
theorem Placed.remove [DecidableEq ε] (placed : Placed members iterator cursor)
    (path : Path active .head (nodesOf members) .tail) (nodup : members.Nodup) (ext : ε) :
    Placed (members.filter (· ≠ ext)) (iterator.update active (.extension ext))
      (cursor.remove ext) := by
  constructor
  · rw [Iterator.update_direction, Cursor.items_remove, placed.items]
    cases iterator.direction with
    | forward => rfl
    | backward => exact List.filter_reverse
  · rw [Iterator.update_direction]
    by_cases here : cursor.passed.getLast? = some ext
    · obtain ⟨before, whole⟩ := List.getLast?_eq_some_iff.mp here
      have distinct : cursor.items.Nodup := by
        rw [placed.items]
        cases iterator.direction with
        | forward => exact nodup
        | backward => exact List.nodup_reverse.mpr nodup
      rw [placed.retreat path whole, Cursor.getLast?_remove_self whole distinct]
    · rw [Cursor.getLast?_remove here, Iterator.update, if_neg, placed.position]
      rw [placed.position, Direction.node]
      intro same
      cases last : cursor.passed.getLast? with
      | none =>
        rw [last] at same
        cases dir : iterator.direction <;> rw [dir] at same <;> cases same
      | some other =>
        rw [last] at same here
        cases same
        exact here rfl

/-- An iterator after an extension was added to the chain. -/
theorem Placed.add (placed : Placed members iterator cursor) (ext : ε) :
    ∃ cursor', Placed (members ++ [ext]) iterator cursor' ∧ ∀ stays : ε → Bool, stays ext = false →
        cursor'.pending.filter stays = cursor.pending.filter stays := by
  cases dir : iterator.direction with
  | forward =>
    refine ⟨cursor.append ext, ⟨?_, placed.position⟩, fun stays comes => Cursor.filter_append comes⟩
    have items := placed.items
    rw [dir] at items ⊢
    rw [Cursor.items_append, items]
    rfl
  | backward =>
    refine ⟨cursor.prepend ext, ⟨?_, ?_⟩, fun stays comes => Cursor.filter_prepend comes⟩
    · have items := placed.items
      rw [dir] at items ⊢
      rw [Cursor.items_prepend, items]
      exact List.reverse_concat.symm
    · rw [Cursor.getLast?_prepend]
      exact placed.position

section

variable (placed : Placed members iterator cursor) {ext : ε} {rest : List ε}
  (pending : cursor.pending = ext :: rest)
include placed pending

/-- An iterator that goes on to the first extension that is pending. -/
theorem Placed.advance : Placed members { iterator with position := .extension ext }
      ⟨cursor.passed ++ [ext], rest⟩ := by
  constructor
  · rw [← placed.items, Cursor.items, Cursor.items, pending, List.append_assoc]
    rfl
  · rw [List.getLast?_concat]
    rfl

/-- An extension that is pending is on the chain. -/
theorem Placed.member : ext ∈ members := by
  have inside : ext ∈ cursor.items := by
    rw [Cursor.items, pending]
    exact List.mem_append_right _ List.mem_cons_self
  rw [placed.items] at inside
  cases dir : iterator.direction with
  | forward =>
    rw [dir] at inside
    exact inside
  | backward =>
    rw [dir] at inside
    exact List.mem_reverse.mp inside

end

theorem placed_start (members : List ε) (dir : Direction) :
    Placed members ⟨dir, dir.start⟩ ⟨[], dir.order members⟩ := ⟨rfl, rfl⟩

theorem nodesOf_nodup (nodup : members.Nodup) : (Node.head :: nodesOf members).Nodup := by
  rw [List.nodup_cons]
  refine ⟨by simp [nodesOf], nodup.map ?_⟩
  intro first second same
  cases same
  rfl

theorem tail_not_mem (members : List ε) : Node.tail ∉ nodesOf members := by simp [nodesOf]

variable [DecidableEq ε] [DecidableEq ρ] {sys : System ε ρ} {run : ρ} {ext : ε}

theorem registryUpdate_iterator {ctl : Control ε ρ} (registered : ctl.registry.Nodup)
    (node : Node ε) (run : ρ) :
    (ctl.registryUpdate node).iterator run =
      if run ∈ ctl.registry then (ctl.iterator run).update ctl.active node
      else ctl.iterator run := by
  rw [Control.registryUpdate]
  generalize ctl.iterator = iterator
  generalize ctl.registry = registry at registered
  induction registry generalizing iterator with
  | nil => rw [List.foldl_nil, if_neg List.not_mem_nil]
  | cons first rest ih =>
    obtain ⟨fresh, distinct⟩ := List.nodup_cons.mp registered
    rw [List.foldl_cons, ih _ distinct]
    by_cases same : run = first
    · rw [same, if_neg fresh, if_pos List.mem_cons_self, update_self]
    · rw [update_of_ne same]
      simp only [List.mem_cons, same, false_or]

omit [DecidableEq ρ] in
theorem Listed.addSet (listed : Listed sys) (fresh : ext ∉ sys.members) :
    Path (sys.control.addSet ext).active .head (nodesOf (sys.members ++ [ext])) .tail ∧
      (sys.members ++ [ext]).Nodup := by
  constructor
  · rw [nodesOf_append]
    apply path_insert_before _ _ _ _ _ listed.path (nodesOf_nodup listed.nodup) (tail_not_mem _)
    · simp [nodesOf, fresh]
    · intro same
      cases same
  · exact List.nodup_append.mpr ⟨listed.nodup, List.nodup_singleton _, by
      rintro first mem second other rfl
      exact fresh (List.mem_singleton.mp other ▸ mem)⟩

theorem Listed.removeSet (listed : Listed sys) (mem : ext ∈ sys.members) :
    Path (sys.control.removeSet ext).active .head
      (nodesOf (sys.members.filter (· ≠ ext))) .tail := by
  obtain ⟨front, back, split⟩ := List.append_of_mem mem
  have nodup := listed.nodup
  have path := listed.path
  have rest : sys.members.filter (· ≠ ext) = front ++ back := by
    rw [split] at nodup ⊢
    have outside := (List.nodup_middle.mp nodup)
    have kept : (front ++ back).filter (· ≠ ext) = front ++ back := by
      rw [List.filter_eq_self]
      rintro other inside
      apply decide_eq_true
      rintro rfl
      exact (List.nodup_cons.mp outside).1 inside
    rw [List.filter_append] at kept
    rw [List.filter_append, List.filter_cons_of_neg (by simp), kept]
  have nodes : nodesOf (front ++ ext :: back) =
      nodesOf front ++ .extension ext :: nodesOf back := nodesOf_append _ _
  rw [rest, nodesOf_append]
  apply path_remove
  · rw [← nodes, ← split]
    exact path
  · rw [← nodes, ← split]
    exact nodesOf_nodup nodup
  · rw [← nodes]
    exact tail_not_mem _

/-- A run goes on: it visits the first extension that is pending, or it ends. -/
theorem Listed.goOn (listed : Listed sys) (mem : run ∈ sys.control.registry) (others : ∀
      other, other ≠ run → (other ∈ sys.control.registry ↔ sys.running other = true))
    (placed : Placed sys.members (sys.control.iterator run) cursor) :
    Sound (sys.goOn run).2 ∧ (sys.goOn run).2.members = sys.members ∧ (∀ other, other ≠ run →
        (sys.goOn run).2.control.iterator other = sys.control.iterator other ∧
          (sys.goOn run).2.running other = sys.running other) ∧
      (cursor.pending = [] ∧ (sys.goOn run).1 = none ∧ (sys.goOn run).2.running run = false ∨
        ∃ ext rest, cursor.pending = ext :: rest ∧ (sys.goOn run).1 = some (run, .extension ext) ∧
          (sys.goOn run).2.running run = true ∧
          Placed sys.members ((sys.goOn run).2.control.iterator run)
            ⟨cursor.passed ++ [ext], rest⟩) := by
  have next := placed.next listed.path
  rw [System.goOn, Control.iterate, next]
  cases pending : cursor.pending with
  | nil =>
    rw [List.head?_nil, Option.map_none, Option.getD_none, if_neg (Classical.not_not.mpr rfl)]
    refine ⟨⟨⟨listed.path, listed.nodup, listed.registered.erase run, ?_⟩, ?_⟩, rfl, ?_,
      Or.inl ⟨rfl, rfl, update_self _ _ _⟩⟩
    · exact fun other inside => listed.placed other (List.mem_of_mem_erase inside)
    · intro other
      dsimp only [Control.iteratorDestroy]
      by_cases same : other = run
      · rw [same, update_self]
        exact iff_of_false listed.registered.not_mem_erase (by decide)
      · rw [update_of_ne same, List.mem_erase_of_ne same]
        exact others other same
    · intro other distinct
      exact ⟨rfl, update_of_ne distinct _ _⟩
  | cons ext rest =>
    have inside : Node.extension ext ≠ (sys.control.iterator run).direction.stop := by
      cases (sys.control.iterator run).direction <;> exact fun same => by cases same
    rw [List.head?_cons, Option.map_some, Option.getD_some, if_pos inside]
    have here := placed.advance pending
    refine ⟨⟨⟨listed.path, listed.nodup, listed.registered, ?_⟩, ?_⟩, rfl, ?_,
      Or.inr ⟨ext, rest, rfl, rfl, update_self _ _ _, ?_⟩⟩
    · intro other inside
      dsimp only [Control.iteratorSetPosition]
      by_cases same : other = run
      · rw [same, update_self]
        exact ⟨_, here⟩
      · rw [update_of_ne same]
        exact listed.placed other inside
    · intro other
      dsimp only [Control.iteratorSetPosition]
      by_cases same : other = run
      · rw [same, update_self]
        exact iff_of_true mem rfl
      · rw [update_of_ne same]
        exact others other same
    · intro other distinct
      exact ⟨update_of_ne distinct _ _, update_of_ne distinct _ _⟩
    · dsimp only [Control.iteratorSetPosition]
      rw [update_self]
      exact here

omit [DecidableEq ε] in
/-- The list when a run was entered and has not looked for its first extension. -/
theorem Sound.enter (sound : Sound sys) (idle : sys.running run = false) (dir : Direction) :
    Listed { sys with control := sys.control.iteratorInitialize run dir } ∧
      run ∈ (sys.control.iteratorInitialize run dir).registry ∧
      (∀ other, other ≠ run → (other ∈ (sys.control.iteratorInitialize run dir).registry ↔
        sys.running other = true)) ∧
      Placed sys.members ((sys.control.iteratorInitialize run dir).iterator run)
        ⟨[], dir.order sys.members⟩ := by
  have outside : run ∉ sys.control.registry := by
    rw [sound.running, idle]
    decide
  have start : Placed sys.members ((sys.control.iteratorInitialize run dir).iterator run)
      ⟨[], dir.order sys.members⟩ := by
    rw [show (sys.control.iteratorInitialize run dir).iterator run =
      ⟨dir, dir.start⟩ from update_self _ _ _]
    exact placed_start sys.members dir
  refine ⟨⟨sound.path, sound.nodup, ?_, ?_⟩, ?_, ?_, start⟩
  · exact List.nodup_append.mpr ⟨sound.registered, List.nodup_singleton _, by
      rintro first inside second other rfl
      exact outside (List.mem_singleton.mp other ▸ inside)⟩
  · intro other inside
    by_cases same : other = run
    · rw [same]
      exact ⟨_, start⟩
    · obtain ⟨cursor, placed⟩ := sound.placed other (by
        obtain old | new := List.mem_append.mp inside
        · exact old
        · exact absurd (List.mem_singleton.mp new) same)
      refine ⟨cursor, ?_⟩
      rw [show (sys.control.iteratorInitialize run dir).iterator other =
        sys.control.iterator other from update_of_ne same _ _]
      exact placed
  · exact List.mem_append_right _ (List.mem_singleton.mpr rfl)
  · intro other distinct
    rw [← sound.running]
    simp [Control.iteratorInitialize, distinct]

theorem Sound.step (sound : Sound sys) {step : Step ε ρ} (permitted : sys.Permitted step) :
    Sound (sys.step step).2 := by
  cases step with
  | addSet ext =>
    obtain ⟨path, nodup⟩ := sound.toListed.addSet permitted
    refine ⟨⟨path, nodup, sound.registered, ?_⟩, sound.running⟩
    intro run inside
    obtain ⟨cursor, placed⟩ := sound.placed run inside
    obtain ⟨cursor', added, _⟩ := placed.add ext
    exact ⟨cursor', added⟩
  | removeSet ext =>
    refine ⟨⟨sound.toListed.removeSet permitted, sound.nodup.filter _, sound.registered, ?_⟩,
      sound.running⟩
    intro run inside
    obtain ⟨cursor, placed⟩ := sound.placed run inside
    refine ⟨cursor.remove ext, ?_⟩
    have moved := registryUpdate_iterator sound.registered (Node.extension ext) run
    rw [if_pos (show run ∈ sys.control.registry from inside)] at moved
    dsimp only [System.step, Control.removeSet]
    rw [moved]
    exact placed.remove sound.path sound.nodup ext
  | enter run dir =>
    obtain ⟨listed, mem, others, start⟩ := sound.enter permitted dir
    exact (listed.goOn mem others start).1
  | resume run =>
    have mem := (sound.running run).mpr permitted
    obtain ⟨cursor, placed⟩ := sound.placed run mem
    exact (sound.toListed.goOn mem (fun other _ => sound.running other) placed).1

/-- The visit of a run that goes on. -/
theorem Listed.visit (listed : Listed sys) (mem : run ∈ sys.control.registry) (others : ∀
      other, other ≠ run → (other ∈ sys.control.registry ↔ sys.running other = true))
    (visit : ρ × Node ε) (made : visit ∈ (sys.goOn run).1) :
    ∃ ext ∈ (sys.goOn run).2.members, visit = (run, .extension ext) := by
  obtain ⟨cursor, placed⟩ := listed.placed run mem
  obtain ⟨_, members, _, ⟨_, none, _⟩ | ⟨ext, rest, pending, some, _⟩⟩ :=
    listed.goOn mem others placed
  · rw [none] at made
    cases made
  · rw [some] at made
    cases made
    rw [members]
    exact ⟨ext, placed.member pending, rfl⟩

/-- A visit is one of an extension that is on the chain. -/
theorem Sound.visit (sound : Sound sys) {step : Step ε ρ} (permitted : sys.Permitted step)
    (visit : ρ × Node ε) (made : visit ∈ (sys.step step).1) :
    ∃ ext ∈ (sys.step step).2.members, visit.2 = .extension ext := by
  cases step with
  | addSet ext => cases made
  | removeSet ext => cases made
  | enter run dir =>
    obtain ⟨listed, mem, others, _⟩ := sound.enter permitted dir
    obtain ⟨ext, inside, rfl⟩ := listed.visit mem others visit made
    exact ⟨ext, inside, rfl⟩
  | resume run =>
    obtain ⟨ext, inside, rfl⟩ := sound.toListed.visit ((sound.running run).mpr permitted)
      (fun other _ => sound.running other) visit made
    exact ⟨ext, inside, rfl⟩

end Rtems.UserExtensions
