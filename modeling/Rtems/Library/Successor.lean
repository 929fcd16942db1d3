import Mathlib.Data.Fintype.Card

/-!
# Partial successor functions

A partial function from a type to itself is a graph in which every node has at most one
edge. If no node leads back to itself and there are finitely many nodes, then every walk
ends, and each node has a height that decreases along the edges.
-/

namespace Successor

open Relation
open Function (update update_of_ne update_self)

universe u
variable {α : Type u} {next other : α → Option α}

/-- There is a walk with at least one edge. -/
def Leads (next : α → Option α) : α → α → Prop :=
  TransGen fun one another => next one = some another

/-- No walk comes back. -/
def Acyclic (next : α → Option α) : Prop :=
  ∀ node, ¬Leads next node node

variable {one : α}

theorem Leads.step {another : α} (edge : next one = some another) : Leads next one another :=
  .single edge

variable {last : α}

theorem Leads.cons {another : α} (edge : next one = some another)
    (walk : Leads next another last) : Leads next one last :=
  .head edge walk

/-- The first edge of a walk. -/
theorem leads_iff : Leads next one last ↔ ∃ another, next one = some another ∧
      (another = last ∨ Leads next another last) := by
  constructor
  · intro walk
    obtain ⟨another, edge, rest⟩ := TransGen.head'_iff.mp walk
    rcases reflTransGen_iff_eq_or_transGen.mp rest with same | rest
    · exact ⟨another, edge, .inl same.symm⟩
    · exact ⟨another, edge, .inr rest⟩
  · rintro ⟨another, edge, rfl | rest⟩
    · exact .step edge
    · exact .cons edge rest

/-- Nothing is behind a node without an edge. -/
theorem not_leads (stop : next one = none) : ¬Leads next one last := by
  intro walk
  obtain ⟨another, edge, -⟩ := leads_iff.mp walk
  rw [stop] at edge
  cases edge

/-- Of two nodes behind the same one, one is behind the other. -/
theorem Leads.compare {middle : α} (first : Leads next one middle) (second : Leads next one last) :
    middle = last ∨ Leads next middle last ∨ Leads next last middle := by
  induction first with
  | single edge =>
    obtain ⟨another, same, rest⟩ := leads_iff.mp second
    cases edge.symm.trans same
    rcases rest with rfl | rest
    · exact .inl rfl
    · exact .inr (.inl rest)
  | @tail inner middle walk edge ih =>
    rcases ih with rfl | behind | before
    · exact .inr (.inr (.step edge))
    · obtain ⟨another, same, rest⟩ := leads_iff.mp behind
      cases edge.symm.trans same
      rcases rest with rfl | rest
      · exact .inl rfl
      · exact .inr (.inl rest)
    · exact .inr (.inr (.tail before edge))

/-- The edge of a node does not matter on the way to it. -/
theorem leads_update [DecidableEq α] (one : α) (edge : Option α) (node : α)
    (walk : Leads (update next one edge) node one) : node = one ∨ Leads next node one := by
  induction walk using TransGen.head_induction_on with
  | @single start last =>
    by_cases same : start = one
    · exact .inl same
    · rw [update_of_ne same] at last
      exact .inr (.step last)
  | @head start middle first rest ih =>
    by_cases same : start = one
    · exact .inl same
    · rw [update_of_ne same] at first
      rcases ih with rfl | walk
      · exact .inr (.step first)
      · exact .inr (.cons first walk)

/-- Walks to a node are the same with and without its edge. -/
theorem leads_update_iff [DecidableEq α] (one : α) (edge : Option α) (node : α) :
    (node = one ∨ Leads (update next one edge) node one) ↔ (node = one ∨ Leads next node one) := by
  constructor
  · rintro (same | walk)
    · exact .inl same
    · exact leads_update one edge node walk
  · rintro (same | walk)
    · exact .inl same
    · apply leads_update one (next one) node
      rwa [Function.update_idem, Function.update_eq_self]

/-- A walk to a node without an edge is still there after some edges were cut if none of
them was on it. -/
theorem leads_cut (cut : α → Prop) [DecidablePred cut] (stop : next last = none)
    (whole : ¬cut last) :
    Leads (fun node => if cut node then none else next node) one last ↔
      Leads next one last ∧ ¬cut one ∧ ∀ node, Leads next one node → ¬cut node := by
  have kept : ∀ start goal, (if cut start then none else next start) = some goal →
      ¬cut start ∧ next start = some goal := by
    intro start goal edge
    by_cases gone : cut start
    · rw [if_pos gone] at edge
      cases edge
    · rw [if_neg gone] at edge
      exact ⟨gone, edge⟩
  constructor
  · intro walk
    induction walk using TransGen.head_induction_on with
    | @single start edge =>
      obtain ⟨uncut, edge⟩ := kept start _ edge
      refine ⟨.step edge, uncut, ?_⟩
      intro node rest
      obtain ⟨second, first, rest⟩ := leads_iff.mp rest
      cases edge.symm.trans first
      rcases rest with rfl | rest
      · exact whole
      · exact absurd rest (not_leads stop)
    | @head start middle edge _ ih =>
      obtain ⟨walk, here, behind⟩ := ih
      obtain ⟨uncut, edge⟩ := kept start _ edge
      refine ⟨.cons edge walk, uncut, ?_⟩
      intro node rest
      obtain ⟨second, first, rest⟩ := leads_iff.mp rest
      cases edge.symm.trans first
      rcases rest with rfl | rest
      · exact here
      · exact behind node rest
  · rintro ⟨walk, here, behind⟩
    induction walk using TransGen.head_induction_on with
    | @single start edge => exact .step (by rw [if_neg here]; exact edge)
    | @head start middle edge _ ih =>
      refine Leads.cons (by rw [if_neg here]; exact edge) ?_
      exact ih (behind middle (.step edge)) fun node rest => behind node (.cons edge rest)

/-- New edges that end at nodes without an edge close no cycle. -/
theorem Acyclic.of_stops (acyclic : Acyclic next) (edges : ∀ one another, other one = some another →
      next one = some another ∨ other another = none) : Acyclic other := by
  have walks : ∀ one last, Leads other one last → Leads next one last ∨ other last = none := by
    intro one last walk
    induction walk with
    | single edge =>
      rcases edges _ _ edge with old | stop
      · exact .inl (.single old)
      · exact .inr stop
    | tail walk edge ih =>
      rcases ih with old | stop
      · rcases edges _ _ edge with last | stop
        · exact .inl (.tail old last)
        · exact .inr stop
      · rw [stop] at edge
        cases edge
  intro node walk
  rcases walks node node walk with old | stop
  · exact acyclic node old
  · exact not_leads stop walk

/-- A new edge of a node without one closes a cycle exactly if its end leads to the
node. -/
theorem acyclic_update [DecidableEq α] (acyclic : Acyclic next) (one another : α)
    (stop : next one = none) :
    Acyclic (update next one (some another)) ↔ another ≠ one ∧ ¬Leads next another one := by
  have kept : ∀ node last, Leads next node last →
      Leads (update next one (some another)) node last := by
    refine fun node last walk => TransGen.mono ?_ node last walk
    intro start goal edge
    rw [update_of_ne]
    · exact edge
    · rintro rfl
      rw [stop] at edge
      cases edge
  constructor
  · intro extended
    constructor
    · rintro rfl
      exact extended another (.step (update_self ..))
    · intro walk
      exact extended one (.cons (update_self ..) (kept another one walk))
  · rintro ⟨different, apart⟩
    -- A walk of the new graph is an old one, or it passes the new edge, at last.
    have walks : ∀ node last, Leads (update next one (some another)) node last →
        Leads next node last ∨
          (node = one ∨ Leads next node one) ∧ (last = another ∨ Leads next another last) := by
      intro node last walk
      induction walk with
      | @single last edge =>
        by_cases same : node = one
        · subst same
          rw [update_self] at edge
          exact .inr ⟨.inl rfl, .inl (Option.some.inj edge).symm⟩
        · rw [update_of_ne same] at edge
          exact .inl (.step edge)
      | @tail middle last walk edge ih =>
        by_cases same : middle = one
        · subst same
          rw [update_self] at edge
          cases edge
          rcases ih with old | ⟨-, back⟩
          · exact .inr ⟨.inr old, .inl rfl⟩
          · rcases back with back | back
            · exact absurd back.symm different
            · exact absurd back apart
        · rw [update_of_ne same] at edge
          rcases ih with old | ⟨front, back⟩
          · exact .inl (.tail old edge)
          · refine .inr ⟨front, .inr ?_⟩
            rcases back with rfl | back
            · exact .step edge
            · exact .tail back edge
    intro node walk
    rcases walks node node walk with old | ⟨front, back⟩
    · exact acyclic node old
    · rcases front with rfl | front <;> rcases back with rfl | back
      · exact different rfl
      · exact apart back
      · exact apart front
      · exact apart (back.trans front)

/-- Walks of finitely many nodes that do not come back can be followed backwards. -/
theorem Acyclic.wellFounded [Finite α] (acyclic : Acyclic next) : WellFounded (Leads next) := by
  have : IsTrans α (Leads next) := ⟨fun _ _ _ first second => first.trans second⟩
  have : Std.Irrefl (Leads next) := ⟨acyclic⟩
  exact Finite.wellFounded_of_trans_of_irrefl (Leads next)

/-- Heights that decrease along the edges, below the number of nodes. -/
theorem Acyclic.height [Fintype α] (acyclic : Acyclic next) :
    ∃ height : α → Nat, (∀ node, height node < Fintype.card α) ∧
      ∀ one another, next one = some another → height another < height one := by
  classical
  refine ⟨fun node => (Finset.univ.filter fun last => Leads next node last).card, ?_, ?_⟩
  · intro node
    apply Finset.card_lt_univ_of_notMem (x := node)
    simpa using acyclic node
  · intro one another edge
    apply Finset.card_lt_card
    refine Finset.ssubset_iff_subset_ne.mpr ⟨?_, ?_⟩
    · intro last inside
      simp only [Finset.mem_filter, Finset.mem_univ, true_and] at inside ⊢
      exact .cons edge inside
    · intro same
      have inside : another ∈ Finset.univ.filter fun last => Leads next one last := by
        simpa using Leads.step edge
      rw [← same] at inside
      exact acyclic another (by simpa using inside)

end Successor
