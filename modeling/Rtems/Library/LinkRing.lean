import Mathlib.Data.List.Nodup

/-!
# Circular doubly linked lists

The links are two maps on an arbitrary type of nodes. A path from one node to
another passes through the listed intermediate nodes with agreeing forward and
backward links; a ring is a path from a head node back to itself whose nodes are
distinct. The four edits write the same links, in the same order, as the usual
pointer code, and each has one law that states the new list of nodes.
-/

namespace LinkRing

open Function (update)
open List (append_nil nodup_cons)

universe u
variable {α : Type u}

/-- The forward and backward link of every node. -/
structure Links (α : Type u) where
  next : α → α
  prev : α → α

/-- Walk from `first` through the listed nodes to `last`: each forward link is
answered by the backward link of the node it reaches. -/
def Path (links : Links α) : α → List α → α → Prop
  | first, [], last => links.next first = last ∧ links.prev last = first
  | first, node :: rest, last =>
      links.next first = node ∧ links.prev node = first ∧ Path links node rest last

/-- A circular list with a head node that is not a member. -/
structure Ring (links : Links α) (head : α) (nodes : List α) : Prop where
  path : Path links head nodes head
  nodup : (head :: nodes).Nodup

/-- The last node before the end of a path. -/
def final : α → List α → α
  | first, [] => first
  | _, node :: rest => final node rest

/-- The node that a path reaches first. -/
def entry : List α → α → α
  | [], last => last
  | node :: _, _ => node

@[simp] theorem entry_nil (last : α) : entry [] last = last := rfl

@[simp] theorem entry_cons (node last : α) (rest : List α) : entry (node :: rest) last = node := rfl

/-- The last node of a path is its start or one of its intermediate nodes. -/
theorem final_member (first : α) (nodes : List α) : final first nodes ∈ first :: nodes := by
  induction nodes generalizing first with
  | nil => simp [final]
  | cons node rest ih =>
    exact List.mem_cons_of_mem first (ih node)

theorem final_append (first node : α) (nodes : List α) : final first (nodes ++ [node]) = node := by
  induction nodes generalizing first with
  | nil => rfl
  | cons other rest ih => exact ih other

theorem final_eq (first : α) (nodes : List α) : final first nodes = nodes.getLast?.getD first := by
  induction nodes generalizing first with
  | nil => rfl
  | cons node rest ih =>
    rw [final, ih, List.getLast?_cons]
    rfl

theorem entry_eq (nodes : List α) (last : α) : entry nodes last = nodes.head?.getD last := by
  cases nodes <;> rfl

/-- The first reached node is an intermediate node or the end. -/
theorem entry_member (nodes : List α) (last : α) : entry nodes last ∈ nodes ++ [last] := by
  cases nodes <;> simp [entry]

theorem path_append (links : Links α) (first last node : α) (front back : List α) :
    Path links first (front ++ node :: back) last ↔
      Path links first front node ∧ Path links node back last := by
  induction front generalizing first with
  | nil => simp [Path, and_assoc]
  | cons other rest ih => simp [Path, ih, and_assoc]

/-- A path reads the forward link of its start and intermediate nodes, and the
backward link of its intermediate nodes and end. -/
theorem path_congr (links other : Links α) (first last : α) (nodes : List α)
    (path : Path links first nodes last)
    (forward : ∀ node ∈ first :: nodes, other.next node = links.next node)
    (backward : ∀ node ∈ nodes ++ [last], other.prev node = links.prev node) :
    Path other first nodes last := by
  induction nodes generalizing first with
  | nil =>
    exact ⟨(forward first (by simp)).trans path.1, (backward last (by simp)).trans path.2⟩
  | cons node rest ih =>
    obtain ⟨ahead, behind, tail⟩ := path
    refine ⟨(forward first (by simp)).trans ahead, (backward node (by simp)).trans behind, ?_⟩
    apply ih node tail
    · intro tested mem
      exact forward tested (List.mem_cons_of_mem first mem)
    · intro tested mem
      exact backward tested (List.mem_cons_of_mem node mem)

section

variable (links : Links α)

/-- The start of a path links forward to its first reached node. -/
theorem path_next (first last : α) (nodes : List α)
    (path : Path links first nodes last) : links.next first = entry nodes last := by
  cases nodes with
  | nil => exact path.1
  | cons node rest => exact path.1

/-- The end of a path links backward to its last node. -/
theorem path_prev (first last : α) (nodes : List α)
    (path : Path links first nodes last) : links.prev last = final first nodes := by
  induction nodes generalizing first with
  | nil => exact path.2
  | cons node rest ih => exact ih node path.2.2

section

variable (first last : α) (front back : List α) (path : Path links first (front ++ back) last)
include path

/-- The last node of the front part links forward to the first node of the rest. -/
theorem path_next_final : links.next (final first front) = entry back last := by
  induction front generalizing first with
  | nil => exact path_next links first last back path
  | cons node rest ih => exact ih node path.2.2

/-- The first node of the rest links backward to the last node of the front part. -/
theorem path_prev_entry : links.prev (entry back last) = final first front := by
  cases back with
  | nil =>
    rw [append_nil] at path
    exact path_prev links first last front path
  | cons node rest =>
    exact path_prev links first node front ((path_append links first last node front rest).mp path).1

end

/-- A member of a ring has a path to it from the head and one back to the head. -/
theorem ring_split (head node : α) (front back : List α)
    (ring : Ring links head (front ++ node :: back)) :
    links.next node = entry back head ∧ links.prev node = final head front := by
  obtain ⟨before, after⟩ := (path_append links head head node front back).mp ring.path
  exact ⟨path_next links node head back after, path_prev links head node front before⟩

/-- The head of a ring links to the first and to the last member. -/
theorem ring_head (head : α) (nodes : List α) (ring : Ring links head nodes) :
    links.next head = entry nodes head ∧ links.prev head = final head nodes :=
  ⟨path_next links head head nodes ring.path, path_prev links head head nodes ring.path⟩

end

/-- A ring reads only the links of its head and members. -/
theorem ring_congr (links other : Links α) (head : α) (nodes : List α)
    (ring : Ring links head nodes)
    (forward : ∀ node ∈ head :: nodes, other.next node = links.next node)
    (backward : ∀ node ∈ head :: nodes, other.prev node = links.prev node) :
    Ring other head nodes := by
  refine ⟨path_congr links other head head nodes ring.path forward ?_, ring.nodup⟩
  intro node mem
  apply backward
  simpa [or_comm] using mem

/-- A fresh node is distinct from the nodes of the ring it enters. -/
theorem nodup_insert (head node : α) (front back : List α)
    (distinct : (head :: (front ++ back)).Nodup) (fresh : node ∉ head :: (front ++ back)) :
    (head :: (front ++ node :: back)).Nodup := by
  have enlarged : (node :: head :: (front ++ back)).Nodup := nodup_cons.mpr ⟨fresh, distinct⟩
  have permuted : (head :: (front ++ node :: back)).Perm (node :: head :: (front ++ back)) :=
    (List.perm_middle.cons head).trans (List.Perm.swap node head _)
  exact permuted.nodup_iff.mpr enlarged

variable [DecidableEq α]

/-- Unlink a node: its neighbours are linked to each other. -/
def Links.remove (links : Links α) (node : α) : Links α :=
  let next := links.next node
  let prev := links.prev node
  { next := Function.update links.next prev next
    prev := Function.update links.prev next prev }

/-- Link a node in directly after another. -/
def Links.insertAfter (links : Links α) (before node : α) : Links α :=
  let next := links.next before
  { next := Function.update (Function.update links.next node next) before node
    prev := Function.update (Function.update links.prev node before) next node }

/-- Link a node in directly before another. -/
def Links.insertBefore (links : Links α) (after node : α) : Links α :=
  let prev := links.prev after
  { next := Function.update (Function.update links.next node after) prev node
    prev := Function.update (Function.update links.prev node prev) after node }

/-- Put a node in the place of another. -/
def Links.replace (links : Links α) (old node : α) : Links α :=
  let next := links.next old
  let prev := links.prev old
  { next := Function.update (Function.update links.next node next) prev node
    prev := Function.update (Function.update links.prev node prev) next node }

/-- Two paths meeting in a node become one path when the last node of the first
and the first reached node of the second are linked to each other.

Induction on the first path: its inner links are unchanged because the rewritten
forward link belongs to its last node and the rewritten backward link to a node
of the second path. -/
theorem path_bridge (links other : Links α) (first last node : α) (front back : List α)
    (before : Path links first front node) (after : Path links node back last)
    (distinct : (first :: (front ++ node :: back)).Nodup) (outside : last ∉ front ++ node :: back)
    (forward : other.next = update links.next (final first front) (entry back last))
    (backward : other.prev = update links.prev (entry back last) (final first front)) :
    Path other first (front ++ back) last := by
  induction front generalizing first with
  | nil =>
    cases back with
    | nil => simp [Path, forward, backward, final, entry]
    | cons reached rest =>
      refine ⟨by simp [forward, final, entry], by simp [backward, final, entry], ?_⟩
      apply path_congr links other reached last rest after.2.2
      · intro tested mem
        have different : tested ≠ first := by
          rintro rfl
          simp_all
        simp [forward, final, different]
      · intro tested mem
        have different : tested ≠ reached := by
          rintro rfl
          simp_all
        simp [backward, different]
  | cons inner rest ih =>
    obtain ⟨ahead, behind, tail⟩ := before
    have firstKept : first ≠ final inner rest := by
      intro same
      have mem := final_member inner rest
      simp_all
    have innerKept : inner ≠ entry back last := by
      intro same
      have mem := entry_member back last
      simp_all
    refine ⟨?_, ?_, ?_⟩
    · simp [forward, final, firstKept, ahead]
    · simp [backward, innerKept, behind]
    · exact ih inner tail (nodup_cons.mp distinct).2
        (fun mem => outside (by simp_all)) forward backward

theorem path_remove (links : Links α) (first last node : α) (front back : List α)
    (path : Path links first (front ++ node :: back) last)
    (distinct : (first :: (front ++ node :: back)).Nodup) (outside : last ∉ front ++ node :: back) :
    Path (links.remove node) first (front ++ back) last := by
  obtain ⟨before, after⟩ := (path_append links first last node front back).mp path
  have ahead := path_next links node last back after
  have behind := path_prev links first node front before
  apply path_bridge links _ first last node front back before after distinct outside
  · simp [Links.remove, ahead, behind]
  · simp [Links.remove, ahead, behind]

/-- Removing a member leaves the other members in order. -/
theorem ring_remove (links : Links α) (head node : α) (front back : List α)
    (ring : Ring links head (front ++ node :: back)) :
    Ring (links.remove node) head (front ++ back) := by
  refine ⟨?_, ?_⟩
  · exact path_remove links head head node front back ring.path ring.nodup
      (nodup_cons.mp ring.nodup).1
  · exact ring.nodup.sublist ((List.sublist_cons_self node back).append_left front |>.cons_cons head)

/-- A new node placed between the last node of one path and the first reached
node of the next joins them.

Induction on the first path, whose inner links are unchanged; the second path is
unchanged because the new node is not one of its nodes. -/
theorem path_insert (links other : Links α) (first last node : α) (front back : List α)
    (path : Path links first (front ++ back) last) (distinct : (first :: (front ++ back)).Nodup)
    (outside : last ∉ front ++ back) (fresh : node ∉ first :: (front ++ back))
    (freshEnd : node ≠ last) (forward : other.next = update (update links.next node (entry back
      last)) (final first front) node) (backward : other.prev = update (update links.prev node
      (final first front)) (entry back last) node) :
    Path other first (front ++ node :: back) last := by
  induction front generalizing first with
  | nil =>
    have nodeKept : node ≠ first := fun same => fresh (by simp [same])
    cases back with
    | nil => simp [Path, forward, backward, final, entry, nodeKept, freshEnd]
    | cons reached rest =>
      have reachedKept : node ≠ reached := fun same => fresh (by simp [same])
      refine ⟨by simp [forward, final], by simp [backward, final, entry, reachedKept],
        by simp [forward, final, entry, nodeKept], by simp [backward, final, entry], ?_⟩
      apply path_congr links other reached last rest path.2.2
      · intro tested mem
        have notFirst : tested ≠ first := by
          rintro rfl
          simp_all
        have notNode : tested ≠ node := by
          rintro rfl
          simp_all
        simp [forward, final, notFirst, notNode]
      · intro tested mem
        have notReached : tested ≠ reached := by
          rintro rfl
          simp_all
        have notNode : tested ≠ node := by
          rintro rfl
          simp_all
        simp [backward, notReached, notNode]
  | cons inner rest ih =>
    obtain ⟨ahead, behind, tail⟩ := path
    have firstKept : first ≠ final inner rest := by
      intro same
      have mem := final_member inner rest
      simp_all
    have innerKept : inner ≠ entry back last := by
      intro same
      have mem := entry_member back last
      simp_all
    have firstFresh : first ≠ node := fun same => fresh (by simp [same])
    have innerFresh : inner ≠ node := fun same => fresh (by simp [same])
    refine ⟨?_, ?_, ?_⟩
    · simp [forward, final, firstKept, firstFresh, ahead]
    · simp [backward, innerKept, innerFresh, behind]
    · exact ih inner tail (nodup_cons.mp distinct).2
        (fun mem => outside (by simp_all)) (fun mem => fresh (by simp_all)) forward backward

/-- Inserting after the last node of the front part places the new node there. -/
theorem ring_insert_after (links : Links α) (head node : α) (front back : List α)
    (ring : Ring links head (front ++ back)) (fresh : node ∉ head :: (front ++ back)) :
    Ring (links.insertAfter (final head front) node) head (front ++ node :: back) := by
  have ahead : links.next (final head front) = entry back head :=
    path_next_final links head head front back ring.path
  refine ⟨?_, nodup_insert head node front back ring.nodup fresh⟩
  apply path_insert links _ head head node front back ring.path ring.nodup
    (nodup_cons.mp ring.nodup).1 fresh (fun same => fresh (by simp [same]))
  · simp [Links.insertAfter, ahead]
  · simp [Links.insertAfter, ahead]

/-- A new node before the end of a path. -/
theorem path_insert_before (links : Links α) (first last node : α) (nodes : List α)
    (path : Path links first nodes last) (distinct : (first :: nodes).Nodup) (outside : last ∉ nodes)
    (fresh : node ∉ first :: nodes) (freshEnd : node ≠ last) :
    Path (links.insertBefore last node) first (nodes ++ [node]) last := by
  have behind : links.prev last = final first nodes := path_prev links first last nodes path
  apply path_insert links _ first last node nodes [] (by rwa [append_nil])
    (by rwa [append_nil]) (by rwa [append_nil]) (by rwa [append_nil]) freshEnd
  · simp [Links.insertBefore, behind]
  · simp [Links.insertBefore, behind]

/-- Replacing a member by a new node keeps its position. -/
theorem ring_replace (links : Links α) (head old node : α) (front back : List α)
    (ring : Ring links head (front ++ old :: back)) (fresh : node ∉ head :: (front ++ back)) :
    Ring (links.replace old node) head (front ++ node :: back) := by
  obtain ⟨ahead, behind⟩ := ring_split links head old front back ring
  have removed := ring_remove links head old front back ring
  refine ⟨?_, nodup_insert head node front back removed.nodup fresh⟩
  apply path_insert (links.remove old) _ head head node front back removed.path removed.nodup
    (nodup_cons.mp removed.nodup).1 fresh (fun same => fresh (by simp [same]))
  iterate 2
    · simp only [Links.replace, Links.remove]
      funext tested
      grind

end LinkRing
