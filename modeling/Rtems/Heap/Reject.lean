import Rtems.Heap.History

/-!
# Refused extensions of a heap

`_Heap_Extend` writes the new end of an area that ends where the extension begins before
it has compared the extension with the areas that follow. Where one of them overlaps, the
extension is refused, and the end stays.
-/

namespace Rtems.Heap

open Transition

variable {port : Port}

namespace Control

/-- `_Heap_Extend` refuses the area: it wraps around, is too small or overlaps an area. -/
def rejects (heap : Control port) (extendAreaBegin extendAreaSize : Nat) : Bool :=
  let extendAreaEnd := port.add extendAreaBegin extendAreaSize
  extendAreaEnd < extendAreaBegin ||
    match getFirstAndLastBlock port extendAreaBegin extendAreaSize heap.pageSize heap.minBlockSize with
    | none => true
    | some _ =>
      match heap.findNeighbours extendAreaBegin extendAreaEnd port.modulus heap.firstBlock {} with
      | some (none, _) => true
      | _ => false

/-- An area that ends where the extension begins comes before the areas that overlap it. -/
def meetsEnd (heap : Control port) (extendAreaBegin extendAreaEnd : Nat) : Nat → Nat → Bool
  | fuel, startBlock =>
    let subAreaBegin := if startBlock ≠ heap.firstBlock then startBlock else heap.areaBegin
    let subAreaEnd := heap.prevSize startBlock
    let endBlock := blockOfAllocArea port subAreaEnd heap.pageSize
    if extendAreaBegin < subAreaEnd ∧ subAreaBegin < extendAreaEnd then false
    else if subAreaEnd = extendAreaBegin then true
    else
      match fuel with
      | 0 => false
      | fuel + 1 =>
        heap.meetsEnd extendAreaBegin extendAreaEnd fuel (blockAt port endBlock (heap.blockSize endBlock))

section

variable (heap : Control port) (extendAreaBegin extendAreaEnd fuel startBlock : Nat)
  (found : Neighbours) {after : Control port}
  (clear : heap.meetsEnd extendAreaBegin extendAreaEnd fuel startBlock = false)
  (refused : heap.findNeighbours extendAreaBegin extendAreaEnd fuel startBlock found =
    some (none, after))
include clear refused

/-- A round of a refused search finds the overlap, or it leaves the heap to the next round. -/
theorem findNeighbours_round : after = heap ∨ ∃ rest next found, fuel = rest + 1 ∧
    heap.meetsEnd extendAreaBegin extendAreaEnd rest next = false ∧
      heap.findNeighbours extendAreaBegin extendAreaEnd rest next found = some (none, after) := by
  rw [findNeighbours] at refused
  rw [meetsEnd.eq_def] at clear
  simp only at refused clear
  by_cases overlaps : extendAreaBegin < heap.prevSize startBlock ∧
      (if startBlock ≠ heap.firstBlock then startBlock else heap.areaBegin) < extendAreaEnd
  · rw [if_pos overlaps] at refused
    cases refused
    exact .inl rfl
  · rw [if_neg overlaps] at refused clear
    by_cases meets : heap.prevSize startBlock = extendAreaBegin
    · rw [if_pos meets] at clear
      cases clear
    · rw [if_neg meets] at clear
      simp only [if_neg meets] at refused
      by_cases last : blockAt port (blockOfAllocArea port (heap.prevSize startBlock) heap.pageSize)
          (heap.blockSize (blockOfAllocArea port (heap.prevSize startBlock) heap.pageSize)) =
            heap.firstBlock
      · rw [if_pos last] at refused
        cases refused
      · rw [if_neg last] at refused
        cases fuel with
        | zero => cases refused
        | succ rest => exact .inr ⟨rest, _, _, rfl, clear, refused⟩

/-- A refused search writes nothing before it meets such an area, by induction on the areas. -/
theorem findNeighbours_keeps : after = heap := by
  induction fuel generalizing startBlock found with
  | zero =>
    obtain same | ⟨rest, -, -, none, -⟩ := findNeighbours_round heap _ _ _ _ _ clear refused
    · exact same
    · cases none
  | succ fuel ih =>
    obtain same | ⟨rest, next, found, less, clear, refused⟩ :=
      findNeighbours_round heap _ _ _ _ _ clear refused
    · exact same
    · obtain rfl := Nat.succ.inj less
      exact ih next found clear refused

end

end Control

/-- No area that ends where a refused extension begins comes before those that overlap it. -/
def System.Clear (state : System port) : GrowingOperation port → Prop
  | .basic _ => True
  | .extend areaBegin areaSize =>
    state.heap.rejects areaBegin areaSize = true →
      port.add areaBegin areaSize < areaBegin ∨
        getFirstAndLastBlock port areaBegin areaSize state.heap.pageSize state.heap.minBlockSize = none ∨
        state.heap.meetsEnd areaBegin (port.add areaBegin areaSize) port.modulus state.heap.firstBlock = false

instance (state : System port) (operation : GrowingOperation port) :
    Decidable (state.Clear operation) :=
  match operation with
  | .basic _ => .isTrue trivial
  | .extend .. => inferInstanceAs (Decidable (_ → _))

/-- A step, or a call of `_Heap_Extend` that is refused. -/
def System.attempt (state : System port) : GrowingOperation port → Option (System port)
  | .basic operation => state.grow (.basic operation)
  | .extend areaBegin areaSize =>
    if state.heap.rejects areaBegin areaSize then
      (state.heap.extend areaBegin areaSize).map fun result => { state with heap := result.2 }
    else state.grow (.extend areaBegin areaSize)

/-- A clear extension that is refused returns zero and leaves the heap as it is. -/
theorem System.Clear.extend {st : System port} {areaBegin areaSize : Fin port.modulus}
    (clear : st.Clear (.extend areaBegin areaSize))
    (refused : st.heap.rejects areaBegin areaSize = true) :
    st.heap.extend areaBegin areaSize = some (0, st.heap) := by
  have clear := clear refused
  simp only [Control.extend]
  by_cases wraps : port.add areaBegin areaSize < areaBegin
  · rw [if_pos wraps]
  · rw [if_neg wraps]
    simp only [Control.rejects, decide_eq_false wraps] at refused
    cases placed : getFirstAndLastBlock port areaBegin areaSize st.heap.pageSize
        st.heap.minBlockSize with
    | none => rfl
    | some blocks =>
      have clear := (clear.resolve_left wraps).resolve_left (by rw [placed]; exact Option.some_ne_none _)
      simp only [placed] at refused
      split at refused
      · rename_i after found
        obtain rfl := st.heap.findNeighbours_keeps _ _ _ _ _ clear found
        simp only [found, Option.map_some]
      · cases refused

/-- In a run with clear extensions a refused one returns zero and leaves the heap as it is, and
the run without the refused ones ends in the same state. -/
theorem refused_extensions_change_nothing {past : List (System port)} {state : System port}
    (run : Trace Initial System.Clear System.attempt past state) :
    (∀ areaBegin areaSize : Fin port.modulus, state.Clear (.extend areaBegin areaSize) →
      state.heap.rejects areaBegin areaSize = true →
        state.heap.extend areaBegin areaSize = some (0, state.heap)) ∧
      ∃ kept : List (System port), kept.Sublist past ∧
        Trace Initial (fun _ _ => True) System.grow kept state := by
  refine ⟨fun _ _ clear refused => clear.extend refused, ?_⟩
  induction run with
  | start state begins => exact ⟨[], .slnil, .start state begins⟩
  | step past state next operation run clear taken ih =>
    obtain ⟨kept, fewer, grown⟩ := ih
    cases operation with
    | basic operation =>
      exact ⟨state :: kept, fewer.cons_cons state, .step kept state next (.basic operation) grown trivial taken⟩
    | extend areaBegin areaSize =>
      rw [System.attempt] at taken
      split at taken
      · rename_i refused
        rw [clear.extend refused] at taken
        cases taken
        exact ⟨kept, fewer.cons state, grown⟩
      · exact ⟨state :: kept, fewer.cons_cons state, .step kept state next _ grown trivial taken⟩

/-- An area of 1000 bytes at 6064 and one at 8000. An extension from 6500 to 6600 is refused. -/
theorem refused_extension_changes_nothing :
    ∃ past state, ∃ areaBegin areaSize : Fin Port.x86_64.modulus,
      Trace Initial System.Clear (@System.attempt .x86_64) past state ∧
        state.heap.rejects areaBegin areaSize = true ∧
        state.heap.extend areaBegin areaSize = some (0, state.heap) := by
  obtain ⟨past, state, run, view⟩ := session_trace System.Clear (@System.attempt .x86_64)
    (fun state => (state.heap.rejects (6500 : Fin Port.x86_64.modulus) (100 : Fin Port.x86_64.modulus),
      decide (state.Clear (.extend 6500 100)))) (true, true) (fun _ => 0) 16 6064 1000 16
    [.extend 8000 1000, .extend 6500 100] (by decide) (by decide) (by decide) (by decide +kernel)
    (by decide +kernel)
  obtain ⟨refused, clear⟩ := Prod.mk.inj view
  exact ⟨past, state, 6500, 100, run, refused,
    (refused_extensions_change_nothing run).1 6500 100 (of_decide_eq_true clear) refused⟩

/-- An area of 1000 bytes at 6064 and one at 8000. An extension from 7064 to 8064 is refused, and then
the first area ends at 8064. -/
theorem refused_extension_moves_an_end :
    ∃ past state, Trace Initial (fun _ _ => True) (@System.grow .x86_64) past state ∧
      state.heap.rejects 7064 1000 = true ∧ state.heap.prevSize state.heap.firstBlock = 7064 ∧
      ((state.heap.extend 7064 1000).map fun result => (result.1, result.2.prevSize state.heap.firstBlock)) =
        some (0, 8064) := by
  obtain ⟨past, state, run, view⟩ := session_trace (fun _ _ => True) (@System.grow .x86_64)
    (fun state => (state.heap.rejects 7064 1000, state.heap.prevSize state.heap.firstBlock,
      (state.heap.extend 7064 1000).map fun result => (result.1, result.2.prevSize state.heap.firstBlock)))
    (true, 7064, some (0, 8064)) (fun _ => 0) 16 6064 1000 16 [.extend 8000 1000] (by decide)
    (by decide) (by decide) (by decide) (by decide +kernel)
  obtain ⟨refused, view⟩ := Prod.mk.inj view
  exact ⟨past, state, run, refused, Prod.mk.inj view⟩

end Rtems.Heap
