import SchemaHighlighter.Engine.Basic

/-!
# Keeping record of an engine

A recorded engine behaves as the engine inside and notes everything that is asked of it. At the
moment of a call it also notes what a probe makes of the memory.
-/
namespace SchemaHighlighter

inductive Event (β : Type) where
  | saved
  /-- An allocation, and its address unless it failed. -/
  | allocated (size : Nat) (address : Option Nat)
  | restored (marker : Nat)
  /-- A call, what the probe saw, and the count unless the call failed. -/
  | called (call : ParseCall) (seen : β) (count : Option Int)
  deriving DecidableEq, Repr

structure Recorded (β σ : Type) where
  inner : σ
  /-- What happened, the latest first. -/
  events : List (Event β) := []

namespace Recorded

variable {β σ α : Type}

def start (m : Machine σ) : Machine (Recorded β σ) := ⟨m.memory, { inner := m.control }⟩

def unrecorded (m : Machine (Recorded β σ)) : Machine σ := ⟨m.memory, m.control.inner⟩

/-- Does something to the engine inside and notes it. -/
def note (f : Machine σ → α × Machine σ) (event : α → Event β) (m : Machine (Recorded β σ)) :
    α × Machine (Recorded β σ) :=
  let events := m.control.events
  let (a, inner) := f ⟨m.memory, m.control.inner⟩
  (a, ⟨inner.memory, ⟨inner.control, event a :: events⟩⟩)

end Recorded

def Engine.recording {β σ : Type} (probe : ParseCall → Memory → β) (e : Engine σ) :
    Engine (Recorded β σ) where
  save := Recorded.note e.save fun _ => .saved
  alloc n := Recorded.note (e.alloc n) fun r => .allocated n r.toOption
  restore marker := fun m =>
    (Recorded.note (fun m => ((), e.restore marker m)) (fun _ => .restored marker) m).2
  parse call := fun m =>
    let seen := probe call m.memory
    Recorded.note (e.parse call) (fun r => .called call seen r.toOption) m

/-! ## Allocations with outcomes of one's choice

An engine whose first allocations are answered from a list. An answer from the list leaves the
scratch stack alone; a place in the list that is empty, and every allocation after its end, is
left to the engine. -/

structure Overridden (σ : Type) where
  inner : σ
  /-- The outcomes of the allocations still to come. -/
  outcomes : List (Option (Except EngineError Nat)) := []

namespace Overridden

variable {σ α : Type}

def lift (f : Machine σ → α × Machine σ) (m : Machine (Overridden σ)) :
    α × Machine (Overridden σ) :=
  let outcomes := m.control.outcomes
  let (a, inner) := f ⟨m.memory, m.control.inner⟩
  (a, ⟨inner.memory, ⟨inner.control, outcomes⟩⟩)

end Overridden

/-- The engine with its list of allocation outcomes consulted first. -/
def Engine.overriding {σ : Type} (e : Engine σ) : Engine (Overridden σ) where
  save := Overridden.lift e.save
  alloc n := fun ⟨memory, control⟩ =>
    match control.outcomes with
    | [] => Overridden.lift (e.alloc n) ⟨memory, control⟩
    | none :: rest => Overridden.lift (e.alloc n) ⟨memory, { control with outcomes := rest }⟩
    | some outcome :: rest => (outcome, ⟨memory, { control with outcomes := rest }⟩)
  restore marker := fun m => (Overridden.lift (fun m => ((), e.restore marker m)) m).2
  parse call := Overridden.lift (e.parse call)

end SchemaHighlighter
