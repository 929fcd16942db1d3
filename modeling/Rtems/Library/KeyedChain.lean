import Mathlib.Order.Bounds.Basic
import Rtems.Library.OrderedChain

/-!
# Chains with keys

Nodes are kept with their keys, smaller keys first. A node is inserted behind the nodes
with the same key, so the first node has the least key.
-/

namespace KeyedChain

open OrderedChain
open Prod (fst)

universe u v
variable {N : Type u} {P : Type v} [LinearOrder P]

/-- Smaller keys come first. -/
def Sorted (chain : List (N × P)) : Prop :=
  chain.Pairwise fun one another => one.2 ≤ another.2

/-- Insert a node behind the nodes with a key that is not greater. -/
def insert (node : N) (key : P) (chain : List (N × P)) : List (N × P) :=
  insertOrdered (fun other => decide (key < other.2)) (node, key) chain

/-- Remove a node. -/
def remove [DecidableEq N] (node : N) (chain : List (N × P)) : List (N × P) :=
  chain.filter fun other => other.1 ≠ node

/-- The keys of a chain. -/
def keys (chain : List (N × P)) : Set P :=
  {key | ∃ node, (node, key) ∈ chain}

theorem insert_perm (node : N) (key : P) (chain : List (N × P)) :
    (insert node key chain).Perm ((node, key) :: chain) := by
  obtain ⟨front, back, split, inserted, -, -⟩ :=
    insertOrdered_split (fun other : N × P => decide (key < other.2)) (node, key) chain
  rw [insert, inserted, split]
  exact List.perm_middle

@[simp]
theorem mem_insert (node : N) (key : P) (chain : List (N × P)) (tested : N × P) :
    tested ∈ insert node key chain ↔ tested = (node, key) ∨ tested ∈ chain := by
  rw [(insert_perm node key chain).mem_iff, List.mem_cons]

theorem insert_ne_nil (node : N) (key : P) (chain : List (N × P)) : insert node key chain ≠ [] :=
  List.ne_nil_of_mem ((mem_insert node key chain (node, key)).mpr (.inl rfl))

omit [LinearOrder P] in
@[simp]
theorem mem_remove [DecidableEq N] (node : N) (chain : List (N × P)) (tested : N × P) :
    tested ∈ remove node chain ↔ tested ∈ chain ∧ tested.1 ≠ node := by
  simp [remove]

variable {chain : List (N × P)}

theorem Sorted.remove [DecidableEq N] (sorted : Sorted chain) (node : N) :
    Sorted (remove node chain) :=
  List.Pairwise.filter _ sorted

theorem Sorted.insert (sorted : Sorted chain) (node : N) (key : P) :
    Sorted (insert node key chain) := by
  obtain ⟨front, back, split, inserted, passed, stop⟩ :=
    insertOrdered_split (fun other : N × P => decide (key < other.2)) (node, key) chain
  rw [KeyedChain.insert, inserted]
  rw [split] at sorted
  obtain ⟨first, second, between⟩ := List.pairwise_append.mp sorted
  -- The first node behind the new one has a greater key, and so have all others.
  have behind : ∀ other ∈ back, key ≤ other.2 := by
    cases back with
    | nil => simp
    | cons next rest =>
      have greater : key < next.2 := by simpa using stop next rfl
      intro other mem
      rcases List.mem_cons.mp mem with rfl | mem
      · exact greater.le
      · exact greater.le.trans ((List.pairwise_cons.mp second).1 other mem)
  refine List.pairwise_append.mpr ⟨first, List.pairwise_cons.mpr ⟨behind, second⟩, ?_⟩
  intro one inFront another mem
  rcases List.mem_cons.mp mem with rfl | mem
  · simpa using passed one inFront
  · exact between one inFront another mem

theorem insert_nodes (node : N) (key : P) (chain : List (N × P)) :
    ((insert node key chain).map fst).Perm (node :: chain.map fst) :=
  (insert_perm node key chain).map fst

omit [LinearOrder P] in
/-- The nodes after a removal, if no node is there twice. -/
theorem remove_nodes [DecidableEq N] (node : N) (chain : List (N × P))
    (once : (chain.map fst).Nodup) :
    (remove node chain).map fst = (chain.map fst).erase node := by
  rw [once.erase_eq_filter, remove, List.filter_map]
  congr 1
  apply List.filter_congr
  intro other _
  simp [bne, beq_eq_decide]

/-- A node that gets another key is still the same one. -/
theorem replace_nodes [DecidableEq N] (node : N) (key : P) (chain : List (N × P))
    (once : (chain.map fst).Nodup) (mem : node ∈ chain.map fst) :
    ((insert node key (remove node chain)).map fst).Perm (chain.map fst) := by
  refine (insert_nodes node key (remove node chain)).trans ?_
  rw [remove_nodes node chain once]
  exact (List.perm_cons_erase mem).symm

/-- The first key is the least one. -/
theorem Sorted.least (sorted : Sorted chain) {first : N × P}
    (head : chain.head? = some first) : IsLeast (keys chain) first.2 := by
  cases chain with
  | nil => cases head
  | cons one rest =>
    obtain rfl : one = first := Option.some.inj head
    refine ⟨⟨one.1, by simp⟩, ?_⟩
    rintro key ⟨node, mem⟩
    rcases List.mem_cons.mp mem with same | mem
    · rw [← same]
    · exact (List.pairwise_cons.mp sorted).1 (node, key) mem

end KeyedChain
