import Rtems.Library.OrderedChain
import Rtems.Library.RedBlack

/-!
# Ordered insertion by a descent

The descent of an insertion asks one test at every node. If the nodes that the test
accepts are behind all others, the descent inserts the new node before the first of
them, like the insertion into a chain.
-/

namespace RedBlack

open OrderedChain

universe u
variable {α : Type u}

/-- The descent goes to the left at the nodes that the test accepts. The link at its end
receives the new node, which is red. -/
def hang (accepts : α → Bool) (added : α) : Tree α → Tree α
  | .leaf => .node .red .leaf added .leaf
  | .node colour left value right =>
      if accepts value then .node colour (hang accepts added left) value right
      else .node colour left value (hang accepts added right)

/-- The leftmost node. -/
def Tree.minimum : Tree α → Option α
  | .leaf => none
  | .node _ left value _ => left.minimum.or (some value)

theorem Tree.minimum_eq_head (tree : Tree α) : tree.minimum = tree.inorder.head? := by
  induction tree with
  | leaf => rfl
  | node colour left value right leftHypothesis _ =>
    rw [minimum, leftHypothesis, Tree.inorder_node, List.head?_append]
    rfl

theorem hang_hung (accepts : α → Bool) (added : α) (tree : Tree α) :
    Hung added tree (hang accepts added tree) := by
  induction tree with
  | leaf => exact .here
  | node colour left value right leftHypothesis rightHypothesis =>
    rw [hang]
    split
    case isTrue => exact .left colour value right leftHypothesis
    case isFalse => exact .right colour left value rightHypothesis

/-- The descent is the insertion into the chain of the nodes. -/
theorem hang_inorder (accepts : α → Bool) (added : α) (tree : Tree α)
    (sorted : tree.inorder.Pairwise fun one other => accepts one = true → accepts other = true) :
    (hang accepts added tree).inorder = insertOrdered accepts added tree.inorder := by
  induction tree with
  | leaf => rfl
  | node colour left value right leftHypothesis rightHypothesis =>
    simp only [Tree.inorder_node] at sorted ⊢
    obtain ⟨sortedLeft, sortedRest, across⟩ := List.pairwise_append.mp sorted
    obtain ⟨aboveValue, sortedRight⟩ := List.pairwise_cons.mp sortedRest
    cases accepted : accepts value with
    | true =>
      obtain ⟨front, back, split, inserted, passed, stop⟩ :=
        insertOrdered_split accepts added left.inorder
      rw [hang, if_pos accepted, Tree.inorder_node, leftHypothesis sortedLeft, inserted, split,
        List.append_assoc, List.append_assoc, insertOrdered_append accepts added front _ passed]
      · rfl
      · intro other head
        cases back with
        | nil =>
          obtain rfl : value = other := by simpa using head
          exact accepted
        | cons next rest => exact stop other (by simpa using head)
    | false =>
      have before : ∀ other ∈ left.inorder, accepts other = false := by
        intro other member
        by_contra taken
        have later := across other member value List.mem_cons_self (by simpa using taken)
        rw [accepted] at later
        cases later
      obtain ⟨front, back, split, inserted, passed, stop⟩ :=
        insertOrdered_split accepts added right.inorder
      have cut : left.inorder ++ value :: (front ++ back) = left.inorder ++ value :: front ++ back := by
        simp
      rw [hang, if_neg (by simp [accepted]), Tree.inorder_node, rightHypothesis sortedRight, inserted,
        split, cut, insertOrdered_append accepts added _ back _ stop]
      · simp
      · intro other member
        rcases List.mem_append.mp member with inside | inside
        · exact before other inside
        · rcases List.mem_cons.mp inside with rfl | inside
          · exact accepted
          · exact passed other inside

end RedBlack
