import Mathlib.Logic.Function.Basic

/-!
# Buffers that are written back later

Buffers hold contents of some keys of a medium. A dirty buffer can be written back at any
time, and a clean buffer can be dropped.
-/

namespace WriteBack

universe u v
variable {K : Type u} {V : Type v}

/-- The contents of a key in memory. -/
structure Buffer (V : Type v) where
  contents : V
  dirty : Bool

/-- A medium with its buffers. -/
structure Store (K : Type u) (V : Type v) where
  medium : K → V
  buffers : K → Option (Buffer V)

/-- What a request finds: the contents of the buffer, or those that a new buffer is given. -/
def Store.request (store : Store K V) (key : K) (given : V) : V :=
  (store.buffers key).elim given Buffer.contents

/-- A request that reads the medium when there is no buffer. -/
def Store.read (store : Store K V) (key : K) : V := store.request key (store.medium key)

variable [DecidableEq K]

/-- A buffer is released with contents. It stays dirty if it was. -/
def Store.release (store : Store K V) (key : K) (contents : V) (dirty : Bool) : Store K V :=
  let buffer : Buffer V := ⟨contents, dirty || (store.buffers key).any Buffer.dirty⟩
  { store with buffers := Function.update store.buffers key (some buffer) }

/-- What can happen to a buffer that is not in use. -/
inductive Event (K : Type u) where
  | writeBack (key : K)
  | evict (key : K)

/-- A dirty buffer is written back, a clean one is dropped. -/
def Store.after (store : Store K V) : Event K → Store K V
  | .writeBack key =>
    match store.buffers key with
    | some ⟨contents, true⟩ =>
      ⟨Function.update store.medium key contents,
        Function.update store.buffers key (some ⟨contents, false⟩)⟩
    | _ => store
  | .evict key =>
    match store.buffers key with
    | some ⟨_, false⟩ => { store with buffers := Function.update store.buffers key none }
    | _ => store

/-- The contents are in the medium, unless a dirty buffer has them. -/
def Store.Holds (store : Store K V) (key : K) (contents : V) : Prop :=
  match store.buffers key with
  | some buffer => buffer.contents = contents ∧ (buffer.dirty = false → store.medium key = contents)
  | none => store.medium key = contents

variable {store : Store K V} {key : K} {contents : V}

/-- A dirty release holds its contents. -/
theorem holds_release : (store.release key contents true).Holds key contents := by
  simp [Store.Holds, Store.release]

omit [DecidableEq K] in
/-- A read gives the contents that are held. -/
theorem Store.Holds.read (holds : store.Holds key contents) : store.read key = contents := by
  unfold Store.Holds at holds
  rw [Store.read, Store.request]
  cases found : store.buffers key with
  | none =>
    rw [found] at holds
    exact holds
  | some buffer =>
    rw [found] at holds
    exact holds.1

/-- Contents stay held whatever happens to the buffers. -/
theorem Store.Holds.after (holds : store.Holds key contents) (event : Event K) :
    (store.after event).Holds key contents := by
  cases event with
  | writeBack other =>
    rw [Store.after]
    split
    · rename_i found
      by_cases same : key = other
      · subst same
        simp only [Store.Holds, found] at holds
        simp [Store.Holds, holds.1]
      · simpa [Store.Holds, Function.update_of_ne same] using holds
    · exact holds
  | evict other =>
    rw [Store.after]
    split
    · rename_i found
      by_cases same : key = other
      · subst same
        simp only [Store.Holds, found] at holds
        simpa [Store.Holds] using holds.2
      · simpa [Store.Holds, Function.update_of_ne same] using holds
    · exact holds

/-- The same for a sequence of events. -/
theorem Store.Holds.run (holds : store.Holds key contents) (events : List (Event K)) :
    (events.foldl Store.after store).Holds key contents := by
  induction events generalizing store with
  | nil => exact holds
  | cons event events ih => exact ih (holds.after event)

/-- Contents that were released as clean are lost when the buffer is dropped. -/
theorem request_evicted (fresh : store.buffers key = none) (given : V) :
    ((store.release key contents false).after (.evict key)).request key given = given := by
  simp [Store.release, Store.after, Store.request, fresh]

end WriteBack
