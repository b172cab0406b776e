import SchemaHighlighter.Engine.Basic
import SchemaHighlighter.Memory.Scratch
import SchemaHighlighter.Record.Answer

/-!
# Engines over a linear memory

Such an engine takes its scratch space from the top of its own memory. An answering engine is
one whose work is a function: it reads its input, and writes the answer to the two records of
the call and nowhere else.
-/
namespace SchemaHighlighter

structure Linear (τ : Type) where
  scratch : Scratch
  /-- A request to stop that the engine may raise itself. -/
  cancelled : Bool := false
  own : τ

namespace Linear

variable {τ : Type}

/-- A memory of `size` zeros whose top `room` bytes are scratch space. -/
def machine (size room : Nat) (own : τ) : Machine (Linear τ) :=
  { memory := Memory.zeros size, control := { scratch := Scratch.atTop size room, own } }

def alloc (n : Nat) : Action (Linear τ) Nat := fun ⟨memory, control⟩ =>
  match control.scratch.alloc n with
  | (.ok address, scratch) => (.ok address, ⟨memory, { control with scratch }⟩)
  | (.error e, _) => (.error (.stackOverflow e.requested e.available), ⟨memory, control⟩)

def restore (marker : Nat) (m : Machine (Linear τ)) : Machine (Linear τ) :=
  { m with control.scratch.pointer := marker }

def outsideMemory : EngineError := .trap "write outside memory"

/-- Puts bytes into the memory, as an engine does. -/
def put (offset : Nat) (bytes : List UInt8) : Action (Linear τ) Unit := fun ⟨memory, control⟩ =>
  if memory.Fits offset bytes.length then (.ok (), ⟨memory.store offset bytes, control⟩)
  else (.error outsideMemory, ⟨memory, control⟩)

end Linear

namespace Engine

variable {τ : Type}

def linear (parse : ParseCall → Action (Linear τ) Int) : Engine (Linear τ) where
  save m := (m.control.scratch.pointer, m)
  alloc := Linear.alloc
  restore := Linear.restore
  parse := parse

/-- The engine that answers by a function of the input and of its own state. -/
def answering (answer : List UInt8 → Linear τ → Answer × Linear τ) : Engine (Linear τ) :=
  linear fun call ⟨memory, control⟩ =>
    let base := call.input + call.start
    let (a, control) := answer (memory.slice base (call.length - call.start)) control
    if memory.Fits call.status (4 * (a.statusWords base).length) ∧
        memory.Fits call.statement (4 * (a.statementWords base).length) then
      (.ok a.count, ⟨a.store base call.status call.statement memory, control⟩)
    else (.error Linear.outsideMemory, ⟨memory, control⟩)

end Engine

end SchemaHighlighter
