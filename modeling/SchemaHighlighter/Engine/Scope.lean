import SchemaHighlighter.Engine.Basic

/-!
# Scopes on the scratch stack

A program of allocations and of scopes within scopes. A scope notes the scratch pointer, runs
its body up to the first instruction that fails, and puts the pointer back.
-/
namespace SchemaHighlighter

inductive Instruction where
  | alloc (size : Nat)
  | save
  | restore (marker : Nat)
  | write (offset : Nat) (bytes : List UInt8)
  | read (offset length : Nat)
  | scope (body : List Instruction)

/-- What an instruction came to. The instructions of a scope are told with the pointer after
each. -/
inductive Reply where
  | done
  | address (n : Nat)
  | bytes (content : Option (List UInt8))
  | failed (error : EngineError)
  | scope (marker : Nat) (body : List (Reply × Nat))

def Reply.isFailed : Reply → Bool
  | failed _ => true
  | _ => false

namespace Instruction

variable {σ : Type}

mutual

/-- Runs one instruction. A scope itself never fails. -/
def run (e : Engine σ) : Instruction → Machine σ → Reply × Machine σ
  | .alloc size, m =>
    match e.alloc size m with
    | (.ok address, m) => (.address address, m)
    | (.error error, m) => (.failed error, m)
  | .save, m =>
    let (marker, m) := e.save m
    (.address marker, m)
  | .restore marker, m => (.done, e.restore marker m)
  | .write offset bytes, m =>
    match Action.change (Memory.write offset bytes) m with
    | (.ok (), m) => (.done, m)
    | (.error error, m) => (.failed error, m)
  | .read offset length, m => (.bytes (m.memory.slice? offset length), m)
  | .scope body, m =>
    let (marker, m) := e.save m
    let (replies, m) := runUntilFailed e body m
    (.scope marker replies, e.restore marker m)

/-- Runs instructions up to the first that fails. -/
def runUntilFailed (e : Engine σ) : List Instruction → Machine σ → List (Reply × Nat) × Machine σ
  | [], m => ([], m)
  | i :: rest, m =>
    let (reply, m) := run e i m
    let (pointer, m) := e.save m
    if reply.isFailed then ([(reply, pointer)], m)
    else
      let (replies, m) := runUntilFailed e rest m
      ((reply, pointer) :: replies, m)

end

/-- Runs instructions one after another, whether they fail or not. -/
def runAll (e : Engine σ) : List Instruction → Machine σ → List (Reply × Nat) × Machine σ
  | [], m => ([], m)
  | i :: rest, m =>
    let (reply, m) := run e i m
    let (pointer, m) := e.save m
    let (replies, m) := runAll e rest m
    ((reply, pointer) :: replies, m)

end Instruction

end SchemaHighlighter
