import Mathlib.Data.List.Nodup

/-!
# Red-black trees with node references

A tree is read through the references that pointer code uses: the right child and
the parent of a node, where the root has no parent. The rebalancing primitives are
two functions with a contract; a pair that rebuilds the tree shows that the contract
can be met. The main fact is that the second node of a balanced tree is next to the
first: it is the right child of the first node, or else its parent.
-/

namespace RedBlack

universe u
variable {α : Type u}

/-- The colour of a node. -/
inductive Colour where
  | red
  | black
deriving DecidableEq, Repr

/-- A binary tree with coloured nodes. -/
inductive Tree (α : Type u) where
  | leaf
  | node (colour : Colour) (left : Tree α) (value : α) (right : Tree α)
deriving DecidableEq, Repr

namespace Tree

/-- The nodes from left to right. -/
def inorder : Tree α → List α
  | leaf => []
  | node _ left value right => left.inorder ++ value :: right.inorder

/-- The topmost node. -/
def root : Tree α → Option α
  | leaf => none
  | node _ _ value _ => some value

/-- The parent of a node. The node above the whole tree, if any, is the parent of
the topmost node. -/
def parentBelow [DecidableEq α] (above : Option α) (sought : α) : Tree α → Option α
  | leaf => none
  | node _ left value right =>
      if sought = value then above
      else (left.parentBelow (some value) sought).or (right.parentBelow (some value) sought)

/-- The parent of a node, none for the root. -/
def parent [DecidableEq α] (tree : Tree α) (sought : α) : Option α :=
  tree.parentBelow none sought

/-- The right child of a node. -/
def right [DecidableEq α] (sought : α) : Tree α → Option α
  | leaf => none
  | node _ left value right =>
      if sought = value then right.root else (left.right sought).or (right.right sought)

/-- The colour of a node of the tree. -/
def colourOf [DecidableEq α] (sought : α) : Tree α → Option Colour
  | leaf => none
  | node colour left value right =>
      if sought = value then some colour
      else (left.colourOf sought).or (right.colourOf sought)

@[simp] theorem inorder_leaf : (leaf : Tree α).inorder = [] := rfl

@[simp] theorem inorder_node (colour : Colour) (left right : Tree α) (value : α) :
    (node colour left value right).inorder = left.inorder ++ value :: right.inorder := rfl

/-- Only the empty tree has no nodes. -/
theorem inorder_eq_nil (tree : Tree α) : tree.inorder = [] ↔ tree = leaf := by
  cases tree <;> simp

/-- The parent of a node that is not in the tree is not found. -/
theorem parentBelow_absent [DecidableEq α] (above : Option α) (sought : α) (tree : Tree α)
    (absent : sought ∉ tree.inorder) : tree.parentBelow above sought = none := by
  induction tree generalizing above with
  | leaf => rfl
  | node colour left value right leftHypothesis rightHypothesis =>
    simp only [inorder_node, List.mem_append, List.mem_cons, not_or] at absent
    obtain ⟨notLeft, ne, notRight⟩ := absent
    rw [parentBelow, if_neg ne, leftHypothesis _ notLeft, rightHypothesis _ notRight]
    rfl

/-- The right child of a node that is not in the tree is not found. -/
theorem right_absent [DecidableEq α] (sought : α) (tree : Tree α)
    (absent : sought ∉ tree.inorder) : tree.right sought = none := by
  induction tree with
  | leaf => rfl
  | node colour left value right leftHypothesis rightHypothesis =>
    simp only [inorder_node, List.mem_append, List.mem_cons, not_or] at absent
    obtain ⟨notLeft, ne, notRight⟩ := absent
    rw [Tree.right, if_neg ne, leftHypothesis notLeft, rightHypothesis notRight]
    rfl

/-- Exactly the nodes of the tree have a colour. -/
theorem colourOf_isSome [DecidableEq α] (sought : α) (tree : Tree α) :
    (tree.colourOf sought).isSome ↔ sought ∈ tree.inorder := by
  induction tree with
  | leaf => simp [colourOf]
  | node colour left value right leftHypothesis rightHypothesis =>
    by_cases same : sought = value
    · simp [colourOf, same]
    · simp [colourOf, same, leftHypothesis, rightHypothesis]

end Tree

open Tree

/-- The colour invariants below a node of the given colour: no red node has a red
child, and every path to a leaf passes the same number of black nodes. -/
inductive Balanced : Tree α → Colour → Nat → Prop where
  | leaf : Balanced leaf .black 0
  | red {left right : Tree α} {height : Nat} (value : α) (lower : Balanced left .black height)
      (upper : Balanced right .black height) : Balanced (node .red left value right) .red height
  | black {left right : Tree α} {height : Nat} {one other : Colour} (value : α)
      (lower : Balanced left one height) (upper : Balanced right other height) :
      Balanced (node .black left value right) .black (height + 1)

/-- A red-black tree is balanced and has a black root. -/
def Valid (tree : Tree α) : Prop :=
  ∃ height, Balanced tree .black height

variable {tree : Tree α} {colour : Colour}

/-- A balanced tree with no black node is empty or a single red node. -/
theorem balanced_flat (balanced : Balanced tree colour 0) :
    tree = leaf ∨ ∃ value, tree = node .red leaf value leaf := by
  cases balanced with
  | leaf => exact .inl rfl
  | red value lower upper =>
    cases lower with
    | leaf =>
      cases upper with
      | leaf => exact .inr ⟨value, rfl⟩

variable {height : Nat}

/-- The right child of the first node, or else its parent, is the second node. The
node above the tree comes after all of its nodes. -/
theorem next_below [DecidableEq α]
    (above : Option α) (first : α) (rest : List α) (balanced : Balanced tree colour height)
    (nodup : tree.inorder.Nodup) (listed : tree.inorder = first :: rest) :
    (tree.right first).or (tree.parentBelow above first) = rest.head?.or above := by
  induction tree generalizing colour height above first rest with
  | leaf => simp at listed
  | node painted left value right leftHypothesis rightHypothesis =>
    obtain ⟨one, other, level, lower, upper⟩ : ∃ one other level,
        Balanced left one level ∧ Balanced right other level := by
      cases balanced with
      | red _ lower upper => exact ⟨_, _, _, lower, upper⟩
      | black _ lower upper => exact ⟨_, _, _, lower, upper⟩
    cases shape : left.inorder with
    | nil =>
      -- the first node has no left child, so its right subtree has no black node
      obtain rfl := (inorder_eq_nil left).mp shape
      obtain ⟨rfl, rfl⟩ : value = first ∧ right.inorder = rest := by simpa using listed
      obtain rfl : level = 0 := by cases lower; rfl
      obtain rfl | ⟨child, rfl⟩ := balanced_flat upper
      · simp [Tree.right, parentBelow, root]
      · simp [Tree.right, root]
    | cons smallest remaining =>
      rw [inorder_node, shape] at listed
      obtain ⟨rfl, rfl⟩ : smallest = first ∧ remaining ++ value :: right.inorder = rest := by
        simpa using listed
      rw [inorder_node, shape] at nodup
      have ne : smallest ≠ value := by
        rintro rfl
        simp at nodup
      have notRight : smallest ∉ right.inorder := by
        intro member
        simp [member] at nodup
      have leftNodup : left.inorder.Nodup := by
        rw [shape]
        exact (List.nodup_append.mp nodup).1
      have step := leftHypothesis (some value) smallest remaining lower leftNodup shape
      simp only [Tree.right, parentBelow, if_neg ne, right_absent smallest right notRight,
        parentBelow_absent _ smallest right notRight, Option.or_none]
      rw [step]
      cases remaining <;> rfl

/-- In a red-black tree, the right child of the first node, or else its parent, is the
second node, and there is no such node exactly if there is no second node. -/
theorem next_first [DecidableEq α] (tree : Tree α) (first : α) (rest : List α)
    (valid : Valid tree) (nodup : tree.inorder.Nodup) (listed : tree.inorder = first :: rest) :
    (tree.right first).or (tree.parent first) = rest.head? := by
  obtain ⟨height, balanced⟩ := valid
  rw [parent, next_below none first rest balanced nodup listed, Option.or_none]

/-- A new red node takes the place of a leaf. -/
inductive Hung (added : α) : Tree α → Tree α → Prop where
  | here : Hung added leaf (node .red leaf added leaf)
  | left {before after : Tree α} (colour : Colour) (value : α) (right : Tree α)
      (hung : Hung added before after) :
      Hung added (node colour before value right) (node colour after value right)
  | right {before after : Tree α} (colour : Colour) (left : Tree α) (value : α)
      (hung : Hung added before after) :
      Hung added (node colour left value before) (node colour left value after)

/-- What the rebalancing primitives promise: after a red node was hung into a
red-black tree, recolouring yields a red-black tree with the same sequence of nodes,
and extracting a node of a red-black tree yields one without it. -/
structure Lawful [DecidableEq α] (insertColor extract : Tree α → α → Tree α) : Prop where
  insert_inorder : ∀ before after added, Valid before → Hung added before after →
    (insertColor after added).inorder = after.inorder
  insert_valid : ∀ before after added, Valid before → Hung added before after →
    Valid (insertColor after added)
  extract_inorder : ∀ tree taken, Valid tree → tree.inorder.Nodup → taken ∈ tree.inorder →
    (extract tree taken).inorder = tree.inorder.erase taken
  extract_valid : ∀ tree taken, Valid tree → tree.inorder.Nodup → taken ∈ tree.inorder →
    Valid (extract tree taken)

section Rebuilding

/-- A black node whose right subtree may have a red root with a red right child: with
a red left child the two levels are recoloured, otherwise the tree is rotated. -/
def joinRight : Tree α → α → Tree α → Tree α
  | node .red below least above, value, node .red middle upper (node .red inner top outer) =>
      node .red (node .black below least above) value
        (node .black middle upper (node .red inner top outer))
  | left, value, node .red middle upper (node .red inner top outer) =>
      node .black (node .red left value middle) upper (node .red inner top outer)
  | left, value, right => node .black left value right

/-- Add a node behind all others. -/
def push (added : α) : Tree α → Tree α
  | leaf => node .red leaf added leaf
  | node .red left value right => node .red left value (push added right)
  | node .black left value right => joinRight left value (push added right)

/-- Give the root the black colour. -/
def blacken : Tree α → Tree α
  | leaf => leaf
  | node _ left value right => node .black left value right

/-- A red-black tree with the given sequence of nodes. -/
def rebuild (values : List α) : Tree α :=
  values.foldl (fun tree value => blacken (push value tree)) leaf

theorem joinRight_inorder (left : Tree α) (value : α) (right : Tree α) :
    (joinRight left value right).inorder = left.inorder ++ value :: right.inorder := by
  unfold joinRight
  split <;> simp

theorem push_inorder (added : α) (tree : Tree α) :
    (push added tree).inorder = tree.inorder ++ [added] := by
  induction tree with
  | leaf => rfl
  | node colour left value right leftHypothesis rightHypothesis =>
    cases colour with
    | red => simp [push, rightHypothesis]
    | black => simp [push, joinRight_inorder, rightHypothesis]

theorem blacken_inorder (tree : Tree α) : (blacken tree).inorder = tree.inorder := by
  cases tree <;> rfl

theorem rebuild_inorder (values : List α) : (rebuild values).inorder = values := by
  suffices general : ∀ tree : Tree α,
      (values.foldl (fun tree value => blacken (push value tree)) tree).inorder =
        tree.inorder ++ values by
    exact general leaf
  induction values with
  | nil => simp
  | cons value rest ih =>
    intro tree
    rw [List.foldl_cons, ih, blacken_inorder, push_inorder]
    simp

/-- A balanced tree, except that a red root may have a red right child. -/
def Loose (tree : Tree α) (height : Nat) : Prop :=
  ∃ left value right colour, tree = node .red left value right ∧ Balanced left .black height ∧
    Balanced right colour height

theorem joinRight_balanced {left right : Tree α} {one : Colour} (value : α)
    (lower : Balanced left one height) (upper : Loose right height) :
    ∃ colour, Balanced (joinRight left value right) colour (height + 1) := by
  obtain ⟨middle, inner, outer, colour, rfl, low, high⟩ := upper
  cases high with
  | leaf =>
    refine ⟨.black, ?_⟩
    cases lower with
    | leaf => exact .black value .leaf (.red inner low .leaf)
    | red least below above => exact .black value (.red least below above) (.red inner low .leaf)
  | black top below above =>
    refine ⟨.black, ?_⟩
    have upper := Balanced.red inner low (.black top below above)
    cases lower with
    | red least lowest highest => exact .black value (.red least lowest highest) upper
    | black least lowest highest => exact .black value (.black least lowest highest) upper
  | red top below above =>
    cases lower with
    | leaf => exact ⟨.black, .black inner (.red value .leaf low) (.red top below above)⟩
    | black least lowest highest =>
      exact ⟨.black, .black inner (.red value (.black least lowest highest) low)
        (.red top below above)⟩
    | red least lowest highest =>
      exact ⟨.red, .red value (.black least lowest highest)
        (.black inner low (.red top below above))⟩

/-- A balanced right subtree is joined as well. -/
theorem joinRight_same {left right : Tree α} {one other : Colour} (value : α)
    (lower : Balanced left one height) (upper : Balanced right other height) :
    ∃ colour, Balanced (joinRight left value right) colour (height + 1) := by
  cases upper with
  | red top below above =>
    exact joinRight_balanced value lower ⟨_, top, _, .black, rfl, below, above⟩
  | leaf =>
    have plain : joinRight left value leaf = node .black left value leaf := by
      unfold joinRight
      split <;> simp_all
    exact ⟨.black, plain ▸ .black value lower .leaf⟩
  | @black inner outer level _ _ top below above =>
    have plain : joinRight left value (node .black inner top outer) =
        node .black left value (node .black inner top outer) := by
      unfold joinRight
      split <;> simp_all
    exact ⟨.black, plain ▸ .black value lower (.black top below above)⟩

/-- Adding a node behind all others keeps the balance below a black root; below a red
root the right child may become red. -/
theorem push_balanced (added : α) (balanced : Balanced tree colour height) :
    (colour = .red → Loose (push added tree) height) ∧
      (colour = .black → ∃ after, Balanced (push added tree) after height) := by
  induction balanced with
  | leaf => exact ⟨by simp, fun _ => ⟨.red, .red added .leaf .leaf⟩⟩
  | red value lower upper lowerHypothesis upperHypothesis =>
    obtain ⟨after, high⟩ := upperHypothesis.2 rfl
    exact ⟨fun _ => ⟨_, value, _, after, rfl, lower, high⟩, by simp⟩
  | @black left right height one other value lower upper lowerHypothesis upperHypothesis =>
    refine ⟨by simp, fun _ => ?_⟩
    cases other with
    | red => exact joinRight_balanced value lower (upperHypothesis.1 rfl)
    | black =>
      obtain ⟨after, high⟩ := upperHypothesis.2 rfl
      exact joinRight_same value lower high

theorem blacken_valid (balanced : Balanced tree colour height) : Valid (blacken tree) := by
  cases balanced with
  | leaf => exact ⟨0, .leaf⟩
  | red value lower upper => exact ⟨_, .black value lower upper⟩
  | black value lower upper => exact ⟨_, .black value lower upper⟩

theorem rebuild_valid (values : List α) : Valid (rebuild values) := by
  suffices general : ∀ tree : Tree α, Valid tree →
      Valid (values.foldl (fun tree value => blacken (push value tree)) tree) by
    exact general leaf ⟨0, .leaf⟩
  induction values with
  | nil => exact fun tree valid => valid
  | cons value rest ih =>
    intro tree valid
    obtain ⟨height, balanced⟩ := valid
    obtain ⟨after, pushed⟩ := (push_balanced value balanced).2 rfl
    exact ih _ (blacken_valid pushed)

/-- Rebuilding the tree from its sequence of nodes meets the contract. -/
theorem rebuild_lawful [DecidableEq α] : Lawful (fun tree (_ : α) => rebuild tree.inorder)
      (fun tree taken => rebuild (tree.inorder.erase taken)) where
  insert_inorder _ after _ _ _ := rebuild_inorder after.inorder
  insert_valid _ after _ _ _ := rebuild_valid after.inorder
  extract_inorder tree taken _ _ _ := rebuild_inorder (tree.inorder.erase taken)
  extract_valid tree taken _ _ _ := rebuild_valid (tree.inorder.erase taken)

end Rebuilding

end RedBlack
