import SchemaHighlighter.Memory.Basic

/-!
# What an engine is

An engine parses one statement at a time. It owns a linear memory, a scratch stack whose
pointer can be saved and restored, and an entry point that reads its input from the memory and
leaves its answer there. Its state beside the memory is its own affair.
-/
namespace SchemaHighlighter

inductive EngineError where
  | moduleNotFound (path : String)
  | io (path cause : String)
  | invalidModule (text : String)
  | instantiate (text : String)
  | cancelled
  | stackOverflow (requested available : Nat)
  | trap (text : String)
  | access (error : AccessError)
  deriving DecidableEq, Repr

def EngineError.message : EngineError → String
  | moduleNotFound path => s!"engine module not found at {path}"
  | io path cause => s!"failed to read engine module {path}: {cause}"
  | invalidModule text => s!"invalid engine module: {text}"
  | instantiate text => s!"failed to instantiate engine: {text}"
  | cancelled => "engine load cancelled"
  | stackOverflow requested available =>
    s!"scratch stack overflow: requested {requested} bytes, {available} available"
  | trap text => s!"engine trapped: {text}"
  | access error => error.message

/-- A memory together with the rest of an engine's state. -/
structure Machine (σ : Type) where
  memory : Memory
  control : σ

/-- Work on a machine that may fail. What it did to the machine stays done. -/
def Action (σ α : Type) : Type := Machine σ → Except EngineError α × Machine σ

namespace Action

variable {σ α β : Type}

def andThen (x : Action σ α) (f : α → Action σ β) : Action σ β := fun m =>
  match x m with
  | (.error e, m) => (.error e, m)
  | (.ok a, m) => f a m

instance : Monad (Action σ) where
  pure a := fun m => (.ok a, m)
  bind := andThen

def fail (e : EngineError) : Action σ α := fun m => (.error e, m)

def read (f : Memory → Except AccessError α) : Action σ α := fun m =>
  match f m.memory with
  | .error e => (.error (.access e), m)
  | .ok a => (.ok a, m)

def change (f : Memory.Change) : Action σ Unit := fun ⟨memory, control⟩ =>
  match f memory with
  | (.error e, memory) => (.error (.access e), ⟨memory, control⟩)
  | (.ok (), memory) => (.ok (), ⟨memory, control⟩)

theorem pure_run (a : α) (m : Machine σ) : (pure a : Action σ α) m = (.ok a, m) := rfl

theorem bind_run (x : Action σ α) (f : α → Action σ β) (m : Machine σ) :
    (x >>= f) m = match x m with
      | (.error e, m) => (.error e, m)
      | (.ok a, m) => f a m := rfl

end Action

/-- The addresses of one call: the input and its length, where in it to begin, and where the
two records go. -/
structure ParseCall where
  input : Nat
  length : Nat
  start : Nat := 0
  statement : Nat
  status : Nat
  deriving DecidableEq, Repr

structure Engine (σ : Type) where
  /-- The place of the scratch pointer. -/
  save : Machine σ → Nat × Machine σ
  /-- Scratch space of the given size, by its address. -/
  alloc : Nat → Action σ Nat
  restore : Nat → Machine σ → Machine σ
  /-- Parses the input of the call and answers how many bytes the statement took. -/
  parse : ParseCall → Action σ Int

/-- Runs `body` and then, whatever became of it, puts the scratch pointer back. -/
def Engine.inScratch {σ α : Type} (e : Engine σ) (body : Action σ α) : Action σ α := fun m =>
  let (marker, m) := e.save m
  let (result, m) := body m
  (result, e.restore marker m)

end SchemaHighlighter
