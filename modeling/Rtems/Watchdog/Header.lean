import Rtems.Library.RedBlack

/-!
# The watchdog header

A header holds the scheduled watchdogs in a red-black tree and caches the first of
them. The colour word of a tree node is the state of the watchdog as well: the two
colours are the scheduled states, and a watchdog outside the tree has one of the
other two states. The rebalancing and the extraction of the tree are the two
parameters of the operations; the descent of the insertion, the step of the cached
first watchdog and the tickle loop are those of the source.
-/

namespace Rtems.Watchdog

open RedBlack

universe u
variable {W : Type u} [DecidableEq W]

/-- `Watchdog_State`. -/
inductive State where
  | scheduledBlack
  | scheduledRed
  | inactive
  | pending
deriving DecidableEq, Repr

/-- `Watchdog_Header`. -/
structure Header (W : Type u) where
  watchdogs : RedBlack.Tree W
  first : Option W
deriving DecidableEq

/-- A header and the watchdog controls. The state word of a node of the tree is its
colour there; `word` holds the state words of the other watchdogs. Expiration times
are 64-bit values in the source, which only compares them. -/
structure Timers (W : Type u) where
  header : Header W
  expire : W → Nat
  word : W → State

/-- `_Watchdog_Get_state`. -/
def Timers.getState (timers : Timers W) (watchdog : W) : State :=
  match timers.header.watchdogs.colourOf watchdog with
  | some .black => .scheduledBlack
  | some .red => .scheduledRed
  | none => timers.word watchdog

/-- `_Watchdog_Set_state` on a watchdog outside the tree. -/
def Timers.setState (timers : Timers W) (watchdog : W) (state : State) : Timers W :=
  { timers with word := Function.update timers.word watchdog state }

/-- `_Watchdog_Is_scheduled`: the state is below `WATCHDOG_INACTIVE`. -/
def Timers.isScheduled (timers : Timers W) (watchdog : W) : Bool :=
  match timers.getState watchdog with
  | .scheduledBlack | .scheduledRed => true
  | .inactive | .pending => false

/-- The scheduled watchdogs from left to right. -/
def Timers.sequence (timers : Timers W) : List W :=
  timers.header.watchdogs.inorder

/-- The link that the loop of `_Watchdog_Insert` ends at receives the new node, which
`_RBTree_Add_child` makes red. -/
def addChild (expires : W → Nat) (watchdog : W) (expire : Nat) : RedBlack.Tree W → RedBlack.Tree W
  | .leaf => .node .red .leaf watchdog .leaf
  | .node colour left parent right =>
      if expire < expires parent then
        .node colour (addChild expires watchdog expire left) parent right
      else
        .node colour left parent (addChild expires watchdog expire right)

/-- The value of `new_first` after the loop of `_Watchdog_Insert`: a step to the right
replaces it by the old first watchdog. -/
def newFirst (expires : W → Nat) (expire : Nat) (oldFirst : Option W) :
    Option W → RedBlack.Tree W → Option W
  | current, .leaf => current
  | current, .node _ left parent right =>
      if expire < expires parent then newFirst expires expire oldFirst current left
      else newFirst expires expire oldFirst oldFirst right

/-- `_Watchdog_Next_first`. -/
def Header.nextFirst (header : Header W) (first : W) : Header W :=
  match header.watchdogs.right first with
  | some right => { header with first := some right }
  | none => { header with first := header.watchdogs.parent first }

section Operations

variable (insertColor extract : RedBlack.Tree W → W → RedBlack.Tree W)

/-- `_Watchdog_Insert`; an insertion of a watchdog that is not inactive is refused, as
by the assertion of the source. -/
def Timers.insert (timers : Timers W) (watchdog : W) (expire : Nat) : Option (Timers W) :=
  if timers.getState watchdog = .inactive then
    let expires := Function.update timers.expire watchdog expire
    let tree := timers.header.watchdogs
    some { timers with
      header :=
        { watchdogs := insertColor (addChild expires watchdog expire tree) watchdog
          first := newFirst expires expire timers.header.first (some watchdog) tree }
      expire := expires }
  else none

/-- `_RBTree_Extract` followed by `_Watchdog_Set_state` to inactive. -/
def Timers.takeOut (timers : Timers W) (header : Header W) (watchdog : W) : Timers W :=
  let taken : Timers W :=
    { timers with header := { header with watchdogs := extract header.watchdogs watchdog } }
  taken.setState watchdog .inactive

/-- `_Watchdog_Remove`. -/
def Timers.remove (timers : Timers W) (watchdog : W) : Timers W :=
  if timers.isScheduled watchdog then
    let header :=
      if timers.header.first = some watchdog then timers.header.nextFirst watchdog
      else timers.header
    timers.takeOut extract header watchdog
  else timers

/-- The loop of `_Watchdog_Do_tickle` with the watchdogs whose routine is called, for
routines that leave the header alone. The loop is cut off after as many rounds as the
fuel has. -/
def Timers.doTickle (now : Nat) : Nat → Timers W → W → Option (Timers W × List W)
  | 0, _, _ => none
  | fuel + 1, timers, first =>
      if timers.expire first ≤ now then
        let timers := timers.takeOut extract (timers.header.nextFirst first) first
        match timers.header.first with
        | none => some (timers, [first])
        | some next =>
            (doTickle now fuel timers next).map fun (timers, called) => (timers, first :: called)
      else some (timers, [])

end Operations

omit [DecidableEq W] in
/-- What the descent of an insertion does to a sequence sorted by expiration time: the
watchdog comes behind all that do not expire later, and it becomes the first one only
if there are none of these. -/
theorem addChild_spec (expires : W → Nat) (watchdog : W) (expire : Nat) (oldFirst : Option W)
    (tree : RedBlack.Tree W)
    (sorted : tree.inorder.Pairwise fun one other => expires one ≤ expires other) :
    ∃ front back, tree.inorder = front ++ back ∧
      (addChild expires watchdog expire tree).inorder = front ++ watchdog :: back ∧
      (∀ one ∈ front, expires one ≤ expire) ∧ (∀ other ∈ back, expire < expires other) ∧
      ∀ current, newFirst expires expire oldFirst current tree =
        if front = [] then current else oldFirst := by
  induction tree with
  | leaf => exact ⟨[], [], by simp [addChild, newFirst]⟩
  | node colour left parent right leftHypothesis rightHypothesis =>
    simp only [RedBlack.Tree.inorder_node] at sorted ⊢
    obtain ⟨sortedLeft, sortedRest, across⟩ := List.pairwise_append.mp sorted
    obtain ⟨aboveParent, sortedRight⟩ := List.pairwise_cons.mp sortedRest
    by_cases before : expire < expires parent
    · obtain ⟨front, back, split, added, early, late, moved⟩ := leftHypothesis sortedLeft
      refine ⟨front, back ++ parent :: right.inorder, ?_, ?_, early, ?_, ?_⟩
      · rw [split, List.append_assoc]
      · rw [addChild, if_pos before, RedBlack.Tree.inorder_node, added, List.append_assoc,
          List.cons_append]
      · intro other mem
        rcases List.mem_append.mp mem with mem | mem
        · exact late other mem
        · rcases List.mem_cons.mp mem with rfl | mem
          · exact before
          · exact Nat.lt_of_lt_of_le before (aboveParent other mem)
      · intro current
        rw [newFirst, if_pos before, moved]
    · obtain ⟨front, back, split, added, early, late, moved⟩ := rightHypothesis sortedRight
      refine ⟨left.inorder ++ parent :: front, back, ?_, ?_, ?_, late, ?_⟩
      · rw [split, List.append_assoc, List.cons_append]
      · rw [addChild, if_neg before, RedBlack.Tree.inorder_node, added, List.append_assoc,
          List.cons_append]
      · intro one mem
        rcases List.mem_append.mp mem with mem | mem
        · exact Nat.le_trans (across one mem parent (by simp)) (Nat.le_of_not_lt before)
        · rcases List.mem_cons.mp mem with rfl | mem
          · exact Nat.le_of_not_lt before
          · exact early one mem
      · intro current
        rw [newFirst, if_neg before, moved]
        simp

omit [DecidableEq W] in
/-- The descent hangs the new node into the tree. -/
theorem addChild_hung (expires : W → Nat) (watchdog : W) (expire : Nat) (tree : RedBlack.Tree W) :
    Hung watchdog tree (addChild expires watchdog expire tree) := by
  induction tree with
  | leaf => exact .here
  | node colour left parent right leftHypothesis rightHypothesis =>
    rw [addChild]
    split
    · exact .left colour parent right leftHypothesis
    · exact .right colour left parent rightHypothesis

section

variable (timers : Timers W) (watchdog : W)

/-- The scheduled watchdogs are the nodes of the tree, as long as no state word outside
the tree says otherwise. -/
theorem Timers.isScheduled_iff (outside : watchdog ∉
      timers.sequence → timers.word watchdog = .inactive ∨ timers.word watchdog = .pending) :
    timers.isScheduled watchdog = true ↔ watchdog ∈ timers.sequence := by
  have coloured := RedBlack.Tree.colourOf_isSome watchdog timers.header.watchdogs
  unfold isScheduled getState
  cases found : timers.header.watchdogs.colourOf watchdog with
  | none =>
    have absent : watchdog ∉ timers.sequence := by
      intro mem
      have present := coloured.mpr mem
      simp [found] at present
    obtain idle | idle := outside absent <;> simp [idle, absent]
  | some colour =>
    have mem : watchdog ∈ timers.sequence := coloured.mp (by simp [found])
    cases colour <;> simp [mem]

theorem Timers.getState_outside
    (absent : watchdog ∉ timers.sequence) : timers.getState watchdog = timers.word watchdog := by
  have coloured := RedBlack.Tree.colourOf_isSome watchdog timers.header.watchdogs
  unfold getState
  cases found : timers.header.watchdogs.colourOf watchdog with
  | none => rfl
  | some colour => exact absurd (coloured.mp (by simp [found])) absent

/-- An inactive watchdog is not in the tree. -/
theorem Timers.inactive_outside
    (inactive : timers.getState watchdog = .inactive) : watchdog ∉ timers.sequence := by
  intro mem
  have coloured := (RedBlack.Tree.colourOf_isSome watchdog timers.header.watchdogs).mpr mem
  obtain ⟨colour, found⟩ := Option.isSome_iff_exists.mp coloured
  unfold getState at inactive
  rw [found] at inactive
  cases colour <;> simp at inactive

end

end Rtems.Watchdog
