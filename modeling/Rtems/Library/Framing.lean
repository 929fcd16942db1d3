import Mathlib.Data.List.Basic

/-!
# Frames from a stream

A stream of bytes is cut into frames. The state tells how many bytes the next frame has,
and a whole frame gives the next state or an error. What comes of a stream does not depend
on the pieces in which it arrives.
-/

namespace Framing

universe u v w
variable {σ : Type u} {β : Type v} {ε : Type w}

/-- The length of the next frame, and what a whole frame does. -/
structure Machine (σ : Type u) (β : Type v) (ε : Type w) where
  need : σ → Nat
  complete : σ → List β → σ × Option ε

/-- A state with the bytes of the next frame that are there. -/
structure Frame (σ : Type u) (β : Type v) where
  state : σ
  received : List β

variable (machine : Machine σ β ε)

/-- One byte. -/
def push (frame : Frame σ β) (byte : β) : Frame σ β × Option ε :=
  if frame.received.length + 1 = machine.need frame.state then
    (⟨(machine.complete frame.state (frame.received ++ [byte])).1, []⟩,
      (machine.complete frame.state (frame.received ++ [byte])).2)
  else (⟨frame.state, frame.received ++ [byte]⟩, none)

/-- A piece of the stream. -/
def feed : Frame σ β → List β → Frame σ β × Option ε
  | frame, [] => (frame, none)
  | frame, byte :: rest =>
    match push machine frame byte with
    | (next, none) => feed next rest
    | (next, some failure) => (next, some failure)

/-- Pieces one after the other, up to the first error. -/
def feedPieces : Frame σ β → List (List β) → Frame σ β × Option ε
  | frame, [] => (frame, none)
  | frame, piece :: rest =>
    match feed machine frame piece with
    | (next, none) => feedPieces next rest
    | (next, some failure) => (next, some failure)

variable {machine}

section

variable (frame : Frame σ β)

/-- A stream may be fed in two pieces. -/
theorem feed_append (first second : List β) : feed machine frame (first ++ second) =
      match feed machine frame first with
      | (next, none) => feed machine next second
      | (next, some failure) => (next, some failure) := by
  induction first generalizing frame with
  | nil => rfl
  | cons byte rest ih =>
    rw [List.cons_append, feed, feed]
    split
    next next pushed => exact ih next
    next => rfl

/-- A stream may be fed in any number of pieces. -/
theorem feedPieces_eq (pieces : List (List β)) :
    feedPieces machine frame pieces = feed machine frame pieces.flatten := by
  induction pieces generalizing frame with
  | nil => rfl
  | cons piece rest ih =>
    rw [feedPieces, List.flatten_cons, feed_append]
    split
    next next fed => exact ih next
    next => rfl

/-- Bytes that do not make the frame whole are kept. -/
theorem feed_short (bytes : List β)
    (short : frame.received.length + bytes.length < machine.need frame.state) :
    feed machine frame bytes = (⟨frame.state, frame.received ++ bytes⟩, none) := by
  induction bytes generalizing frame with
  | nil => rw [feed, List.append_nil]
  | cons byte rest ih =>
    rw [List.length_cons] at short
    rw [feed, push, if_neg (by omega)]
    refine (ih _ ?_).trans ?_
    · dsimp only
      rw [List.length_append, List.length_singleton]
      omega
    · rw [List.append_assoc, List.singleton_append]

/-- The bytes that make the frame whole. -/
theorem feed_whole (bytes : List β) (more : bytes ≠ [])
    (whole : frame.received.length + bytes.length = machine.need frame.state) :
    feed machine frame bytes = (⟨(machine.complete frame.state (frame.received ++ bytes)).1, []⟩,
        (machine.complete frame.state (frame.received ++ bytes)).2) := by
  obtain ⟨front, last, rfl⟩ := (List.eq_nil_or_concat' bytes).resolve_left more
  rw [List.length_append, List.length_singleton] at whole
  rw [feed_append, feed_short frame front (by omega)]
  dsimp only
  rw [feed, push]
  rw [if_pos (by rw [List.length_append]; omega), List.append_assoc]
  cases (machine.complete frame.state (frame.received ++ (front ++ [last]))).2 <;> rfl

end

/-- The bytes that make the frame whole, and what follows them. -/
theorem feed_whole_append (frame : Frame σ β) (bytes rest : List β) (more : bytes ≠ [])
    (whole : frame.received.length + bytes.length = machine.need frame.state) :
    feed machine frame (bytes ++ rest) =
      match machine.complete frame.state (frame.received ++ bytes) with
      | (state, none) => feed machine ⟨state, []⟩ rest
      | (state, some failure) => (⟨state, []⟩, some failure) := by
  rw [feed_append, feed_whole frame bytes more whole]
  obtain ⟨state, outcome⟩ := machine.complete frame.state (frame.received ++ bytes)
  cases outcome <;> rfl

end Framing
