import Rtems.Objects.Unlimited

/-!
# Iteration over the objects of a class

`_Objects_Get_next` looks for the next open object from an identifier on and gives the
identifier behind it for the next call. It counts the identifier up as a number and sees
the end of the table by the index in it.
-/

namespace Rtems.Objects

/-- `OBJECTS_ID_INITIAL_INDEX`. -/
def initialIndex : Nat := 0

/-- `OBJECTS_ID_FINAL`. -/
def idFinal : Nat := 2 ^ 32 - 1

/-- `_Objects_Get_minimum_id`. -/
def getMinimumId (id : Nat) : Nat := (id - getIndex id + 1) % 2 ^ 32

/-- The loop of `_Objects_Get_next`, which has no result if the rounds do not suffice. -/
def getNextLoop (information : Information) : (rounds nextId : Nat) → Option (Option Nat × Nat)
  | 0, _ => none
  | rounds + 1, nextId =>
    if getIndex nextId > getMaximumIndex information then some (none, idFinal)
    else
      (getNoProtection nextId information).elim
        (getNextLoop information rounds ((nextId + 1) % 2 ^ 32))
        fun object => some (some object, (nextId + 1) % 2 ^ 32)

/-- `_Objects_Get_next`: the object and the next identifier. -/
def getNext (id : Nat) (information : Information) (rounds : Nat) : Option (Option Nat × Nat) :=
  getNextLoop information rounds
    (if getIndex id = initialIndex then getMinimumId information.maximumId else id)

/-- The objects that the calls return, each from the identifier that the one before gave,
until no object is returned. -/
inductive Iteration (information : Information) : Nat → List Nat → Prop where
  | last (id rounds : Nat) (ended : getNext id information rounds = some (none, idFinal)) :
      Iteration information id []
  | more (id rounds object next : Nat) (objects : List Nat)
      (found : getNext id information rounds = some (some object, next))
      (rest : Iteration information next objects) : Iteration information id (object :: objects)

variable {info : Information}

/-- Identifiers of which one leads to the other have the same iteration. -/
theorem Iteration.lead {id other : Nat} {objects : List Nat} (delay : Nat)
    (iteration : Iteration info id objects)
    (leads : ∀ rounds, getNext other info (rounds + delay) = getNext id info rounds) :
    Iteration info other objects := by
  cases iteration with
  | last id rounds ended => exact .last other (rounds + delay) ((leads rounds).trans ended)
  | more id rounds obj next objects found rest =>
    exact .more other (rounds + delay) obj next objects ((leads rounds).trans found) rest

/-- The identifier of an index, with the loop at it, if the index behind the last one is not
beyond the range. -/
theorem getNext_at (range : info.maximumId < 2 ^ 32)
    (few : getMaximumIndex info < finalIndex) {index : Nat}
    (below : index ≤ getMaximumIndex info) (rounds : Nat) :
    getNext (apiClassAndNode info + index + 1) info rounds =
      getNextLoop info rounds (apiClassAndNode info + index + 1) ∧
    getIndex (apiClassAndNode info + index + 1) = index + 1 ∧
    (index < getMaximumIndex info → (apiClassAndNode info + index + 1 + 1) % 2 ^ 32 =
      apiClassAndNode info + (index + 1) + 1) := by
  have whole := apiClassAndNode_eq info
  unfold finalIndex at few
  have place : getIndex (apiClassAndNode info + index + 1) = index + 1 :=
    @getIndex_add info (index + 1) (by omega)
  refine ⟨?_, place, fun _ => by omega⟩
  rw [getNext, place, if_neg (by simp [initialIndex])]

/-- The iteration from an index on visits the open objects behind it. -/
theorem iteration_from (range : info.maximumId < 2 ^ 32)
    (few : getMaximumIndex info < finalIndex) (count index : Nat)
    (left : index + count = getMaximumIndex info) :
    Iteration info (apiClassAndNode info + index + 1)
      ((List.range' index count).filterMap info.localTable) := by
  induction count generalizing index with
  | zero =>
    obtain ⟨start, place, -⟩ := getNext_at range few (by omega : index ≤ _) 1
    refine .last _ 1 ?_
    rw [start, getNextLoop, place, if_pos (by omega)]
  | succ count ih =>
    have below : index < getMaximumIndex info := by omega
    have rest := ih (index + 1) (by omega)
    have here := getNoProtection_at range below
    have loop (rounds : Nat) := getNext_at range few below.le (rounds + 1)
    have next (rounds : Nat) := (getNext_at range few (by omega : index + 1 ≤ _) rounds).1
    rw [List.range'_succ]
    cases entry : info.localTable index with
    | none =>
      rw [List.filterMap_cons_none entry]
      refine rest.lead 1 fun rounds => ?_
      obtain ⟨start, place, advance⟩ := loop rounds
      rw [start, next, getNextLoop, place, if_neg (by omega), here, entry,
        Option.elim_none, advance below]
    | some obj =>
      rw [List.filterMap_cons_some entry]
      obtain ⟨start, place, advance⟩ := loop 0
      refine .more _ 1 obj _ _ ?_ rest
      rw [start, getNextLoop, place, if_neg (by omega), here, entry, Option.elim_some,
        advance below]

/-- The calls go on if the last index is that of the range, since no index is beyond it. -/
theorem getNextLoop_goes_on (full : getMaximumIndex info = finalIndex)
    (rounds nextId next : Nat) : getNextLoop info rounds nextId ≠ some (none, next) := by
  induction rounds generalizing nextId with
  | zero => simp [getNextLoop]
  | succ rounds ih =>
    have inside : getIndex nextId < 2 ^ 16 := Nat.mod_lt _ (Nat.two_pow_pos 16)
    rw [getNextLoop, full, if_neg (by unfold finalIndex; omega)]
    cases getNoProtection nextId info with
    | none => exact ih _
    | some obj => simp

theorem Iteration.not_full {id : Nat} {objects : List Nat}
    (iteration : Iteration info id objects) : getMaximumIndex info ≠ finalIndex := by
  intro full
  induction iteration with
  | last id rounds ended => exact getNextLoop_goes_on full _ _ _ ended
  | more id rounds obj next objects found rest ih => exact ih

/-- From an identifier with the initial index the calls visit every open object once, in the
order of the indexes, and end with the final identifier, exactly if the last index is not
that of the range. -/
theorem iteration_visits_iff (information : Information) (range : information.maximumId < 2 ^ 32)
    (id : Nat) (initial : getIndex id = initialIndex) :
    Iteration information id
      ((List.range (getMaximumIndex information)).filterMap information.localTable) ↔
      getMaximumIndex information < finalIndex := by
  have limit := getMaximumIndex_lt information
  constructor
  · intro iteration
    have different := iteration.not_full
    unfold finalIndex at different ⊢
    omega
  · intro few
    have visits := iteration_from range few (getMaximumIndex information) 0 (Nat.zero_add _)
    rw [← List.range_eq_range'] at visits
    refine visits.lead 0 fun rounds => ?_
    have lowest : getMinimumId information.maximumId = apiClassAndNode information + 0 + 1 := by
      have split := maximumId_eq information
      have whole := apiClassAndNode_eq information
      exact Nat.mod_eq_of_lt (by unfold apiClassAndNode at split whole; omega)
    rw [(getNext_at range few (Nat.zero_le _) rounds).1, getNext, if_pos initial, lowest]
    rfl

/-- Three objects of which the second one is not open. -/
def pair : Information :=
  { defineInformation 0x0a010003 3 8 100 (fun _ => ⟨0, 0⟩) with
    localTable := fun index => if index = 1 then none else some (100 + 8 * index) }

theorem iteration_visits_pair : Iteration pair 0 [100, 116] :=
  (iteration_visits_iff pair (by decide) 0 rfl).mpr (by decide)

/-- With 65535 objects the calls never end. -/
theorem iteration_never_ends :
    ¬ ∀ (information : Information) (id : Nat), information.maximumId < 2 ^ 32 →
      1 ≤ getMaximumIndex information → getIndex id = initialIndex →
        Iteration information id
          ((List.range (getMaximumIndex information)).filterMap information.localTable) := by
  intro claim
  have iteration := claim (defineInformation 0x0a01ffff 1 8 100 (fun _ => ⟨0, 0⟩)) 0 (by decide)
    (by decide) rfl
  exact iteration.not_full (by decide)

end Rtems.Objects
