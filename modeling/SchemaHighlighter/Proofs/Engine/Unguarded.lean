import SchemaHighlighter.Proofs.Engine.Marshal
import SchemaHighlighter.Proofs.Engine.Release
import SchemaHighlighter.Proofs.Record.Acceptance

/-! # Unguarded calls

The call of an engine once more, in the way of unguarded access: a sum that leaves the address
space ends the program, and so does a byte that is read or written outside the memory. As long
as the engine keeps the size of its memory, the program goes on and both ways of calling come to
the same. -/
namespace SchemaHighlighter

variable {σ α β : Type}

namespace Unguarded

/-- Work on a machine that may fail or end the program. -/
def Work (σ α : Type) : Type := Machine σ → Option (Except EngineError α × Machine σ)

/-- Stores bytes one after another, as long as each lies in the memory. -/
def store (m : Memory) (offset : Nat) : List UInt8 → Option Memory
  | [] => some m
  | b :: rest =>
    if offset < m.size then store ⟨m.bytes.setIfInBounds offset b⟩ (offset + 1) rest else none

namespace Work

def andThen (x : Work σ α) (f : α → Work σ β) : Work σ β := fun m =>
  match x m with
  | none => none
  | some (.error e, m) => some (.error e, m)
  | some (.ok a, m) => f a m

instance : Monad (Work σ) where
  pure a := fun m => some (.ok a, m)
  bind := andThen

/-- What is left to the engine itself. -/
def ofAction (x : Action σ α) : Work σ α := fun m => some (x m)

def read (f : Memory → Unguarded α) : Work σ α := fun m =>
  match f m.memory with
  | none => none
  | some (.error e) => some (.error (.access e), m)
  | some (.ok a) => some (.ok a, m)

def write (offset : Nat) (bytes : List UInt8) : Work σ Unit := fun m =>
  match m.memory.checkRange offset bytes.length with
  | .error e => some (.error (.access e), m)
  | .ok () => (store m.memory offset bytes).map fun memory => (.ok (), ⟨memory, m.control⟩)

def clear (offset length : Nat) : Work σ Unit := write offset (List.replicate length 0)

end Work

def inScratch (e : Engine σ) (body : Work σ α) : Work σ α := fun m =>
  let (marker, m) := e.save m
  (body m).map fun (result, m) => (result, e.restore marker m)

def marshal (e : Engine σ) (text : Text) : Work σ ParseCall := do
  let length := Text.byteLength text
  let input ← .ofAction (e.alloc (← .read fun _ => sum length 1))
  .write input (Text.encode text)
  .write (← .read fun _ => sum input length) [0]
  let status ← .ofAction (e.alloc Status.recordSize)
  .clear status Status.recordSize
  let statement ← .ofAction (e.alloc Statement.recordSize)
  .clear statement Statement.recordSize
  return { input, length, statement, status }

def readAnswer (call : ParseCall) (raw : Int) (m : Memory) : Unguarded ParseResult := do
  let status ← readStatus m call.status call.input
  let statement ←
    if status.code.isResumable then
      some <$> readStatement m call.statement call.input
    else pure none
  return {
    status, statement
    consumed := clampCount raw call.length
    log := countLog raw call.length }

/-- Parses the first statement of a text whose length is a 32-bit number. -/
def parseStatement (e : Engine σ) (text : Text) : Work σ ParseResult := fun m =>
  if 0x100000000 ≤ Text.byteLength text then some (.error (.stackOverflow 0xFFFFFFFF 0), m)
  else
    inScratch e (do
      let call ← marshal e text
      let raw ← .ofAction (e.parse call)
      .read (readAnswer call raw)) m

theorem store_eq_some {m : Memory} {offset : Nat} {bytes : List UInt8}
    (fits : m.Fits offset bytes.length) : store m offset bytes = some (m.store offset bytes) := by
  induction bytes generalizing m offset with
  | nil => rfl
  | cons b rest ih =>
    rw [Memory.fits_iff, List.length_cons] at fits
    rw [store, if_pos (by omega), Memory.store]
    refine ih ?_
    rw [Memory.fits_iff, Memory.size, Array.size_setIfInBounds]
    rw [Memory.size] at fits
    omega

namespace Work

variable {m : Machine σ}

/-- Two ways of working agree one step after another, the second step where the first came to
something. -/
theorem bind_eq_some {x' : Work σ α} {x : Action σ α} {f' : α → Work σ β} {f : α → Action σ β}
    (first : x' m = some (x m)) (next : ∀ a m₁, x m = (.ok a, m₁) → f' a m₁ = some (f a m₁)) :
    (x' >>= f') m = some ((x >>= f) m) := by
  rw [Action.bind_run]
  rcases run : x m with ⟨error | a, m₁⟩
  · simp only [bind, andThen, first, run]
  · simp only [bind, andThen, first, run]
    exact next a m₁ run

theorem read_bind {f : Memory → Unguarded α} {a : α} (found : f m.memory = checked (.ok a))
    (g : α → Work σ β) : (read f >>= g) m = g a m := by
  simp only [bind, andThen, read, found, checked]

theorem read_eq_some {f' : Memory → Unguarded α} {f : Memory → Except AccessError α}
    (same : f' m.memory = checked (f m.memory)) : read f' m = some (Action.read f m) := by
  simp only [read, Action.read, same, checked]
  cases f m.memory <;> rfl

theorem write_eq_some (offset : Nat) (bytes : List UInt8) :
    write offset bytes m = some (Action.change (Memory.write offset bytes) m) := by
  simp only [write, Action.change, Memory.write]
  rcases inside : m.memory.checkRange offset bytes.length with e | ⟨⟩
  · rfl
  · rw [store_eq_some (Memory.checkRange_eq_ok_iff.1 inside)]
    rfl

theorem clear_eq_some (offset length : Nat) :
    clear offset length m = some (Action.change (Memory.fillZero offset length) m) := by
  rw [Memory.fillZero_eq_write]
  exact write_eq_some offset _

end Work

theorem inScratch_eq_some {e : Engine σ} {m : Machine σ} {body' : Work σ α} {body : Action σ α}
    (same : body' (e.save m).2 = some (body (e.save m).2)) :
    inScratch e body' m = some (e.inScratch body m) := by
  simp only [inScratch, same]
  rfl

end Unguarded

namespace Action

variable {m m' : Machine σ} {offset length : Nat} {bytes : List UInt8}

theorem of_change_write (h : change (Memory.write offset bytes) m = (.ok (), m')) :
    m.memory.Fits offset bytes.length ∧ m'.memory.size = m.memory.size := by
  by_cases fits : m.memory.Fits offset bytes.length
  · rw [change_write fits] at h
    cases h
    exact ⟨fits, Memory.size_store ..⟩
  · simp only [change, Memory.write, Memory.checkRange, if_neg fits] at h
    cases congrArg Prod.fst h

theorem of_change_fillZero (h : change (Memory.fillZero offset length) m = (.ok (), m')) :
    m.memory.Fits offset length ∧ m'.memory.size = m.memory.size := by
  rw [Memory.fillZero_eq_write] at h
  obtain ⟨fits, size⟩ := of_change_write h
  rw [List.length_replicate] at fits
  exact ⟨fits, size⟩

end Action

namespace Engine

variable {e : Engine σ} {text : Text} {m : Machine σ}

/-- The memory has the same size always. -/
structure KeepsSize (e : Engine σ) : Prop where
  save : ∀ m, (e.save m).2.memory.size = m.memory.size
  alloc : ∀ {n m result m'}, e.alloc n m = (result, m') → m'.memory.size = m.memory.size
  parse : ∀ {call m result m'}, e.parse call m = (result, m') → m'.memory.size = m.memory.size

theorem marshal_survives (keeps : e.KeepsSize) (size : m.memory.size < 0x100000000)
    (short : Text.byteLength text < 0xFFFFFFFF) :
    Unguarded.marshal e text m = some (e.marshal text m) := by
  have whole : Unguarded.sum (Text.byteLength text) 1 =
      Unguarded.checked (.ok (Text.byteLength text + 1)) := by
    rw [Unguarded.sum_eq_checked (by omega), addressAfter_ok (by omega)]
  refine (Unguarded.Work.read_bind whole _).trans ?_
  refine Unguarded.Work.bind_eq_some rfl ?_
  intro input m₁ inputRoom
  refine Unguarded.Work.bind_eq_some (Unguarded.Work.write_eq_some ..) ?_
  intro _ m₂ copied
  -- the input lies in the memory, so its end is an address
  have near : input + Text.byteLength text < 0x100000000 := by
    have fits := (Action.of_change_write copied).1
    rw [Memory.fits_iff, Text.length_encode, keeps.alloc inputRoom] at fits
    omega
  refine Unguarded.Work.bind_eq_some
    (Unguarded.Work.read_eq_some (Unguarded.sum_eq_checked near)) ?_
  intro terminator m₃ _
  refine Unguarded.Work.bind_eq_some (Unguarded.Work.write_eq_some ..) ?_
  intro _ m₄ _
  refine Unguarded.Work.bind_eq_some rfl ?_
  intro status m₅ _
  refine Unguarded.Work.bind_eq_some (Unguarded.Work.clear_eq_some ..) ?_
  intro _ m₆ _
  refine Unguarded.Work.bind_eq_some rfl ?_
  intro statement m₇ _
  exact Unguarded.Work.bind_eq_some (Unguarded.Work.clear_eq_some ..) fun _ _ _ => rfl

/-- The records of a call that was laid out lie in the memory. -/
theorem Marshalled.fits {call : ParseCall} {ready : Machine σ} (keeps : e.KeepsSize)
    (laid : Marshalled e text m call ready) :
    ready.memory.size = m.memory.size ∧ call.length = Text.byteLength text ∧
      ready.memory.Fits call.status Status.recordSize ∧
      ready.memory.Fits call.statement Statement.recordSize := by
  cases laid with
  | intro inputRoom copied near ended statusRoom statusClear statementRoom statementClear =>
    obtain ⟨-, size₂⟩ := Action.of_change_write copied
    obtain ⟨-, size₃⟩ := Action.of_change_write ended
    obtain ⟨statusFits, size₅⟩ := Action.of_change_fillZero statusClear
    obtain ⟨statementFits, size₇⟩ := Action.of_change_fillZero statementClear
    have size₁ := keeps.alloc inputRoom
    have size₄ := keeps.alloc statusRoom
    have size₆ := keeps.alloc statementRoom
    exact ⟨by omega, rfl, statusFits.of_size (by omega), statementFits.of_size (by omega)⟩

theorem readAnswer_survives {call : ParseCall} {memory : Memory} (raw : Int)
    (size : memory.size < 0x100000000) (statusFits : memory.Fits call.status Status.recordSize)
    (statementFits : memory.Fits call.statement Statement.recordSize) :
    Unguarded.readAnswer call raw memory = Unguarded.checked (readAnswer call raw memory) := by
  refine Unguarded.bind_eq_checked
    (Unguarded.readStatus_eq_checked (Memory.addressable_of_fits size statusFits)) ?_
  intro status _
  have statement : Unguarded.readStatement memory call.statement call.input = _ :=
    Unguarded.readStatement_eq_checked (Memory.addressable_of_fits size statementFits)
  by_cases resumable : status.code.isResumable = true
  · simp only [if_pos resumable, statement]
    cases Statement.read memory call.statement call.input <;> rfl
  · simp only [if_neg resumable]
    rfl

theorem unguarded_eq_some (keeps : e.KeepsSize) (size : m.memory.size < 0x100000000)
    (short : Text.byteLength text < 0xFFFFFFFF) :
    Unguarded.parseStatement e text m = some (e.parseStatement text m) := by
  rw [Unguarded.parseStatement, if_neg (by omega), parseStatement, if_neg (by omega)]
  have saved : (e.save m).2.memory.size < 0x100000000 := by rwa [keeps.save]
  refine Unguarded.inScratch_eq_some ?_
  refine Unguarded.Work.bind_eq_some (marshal_survives keeps saved short) ?_
  intro call ready marshalled
  obtain ⟨size₁, -, status, statement⟩ := (marshalled_of_marshal marshalled).fits keeps
  refine Unguarded.Work.bind_eq_some rfl ?_
  intro raw after answered
  -- what the call left in the records is of no account here
  have size₂ := keeps.parse answered
  exact Unguarded.Work.read_eq_some
    (readAnswer_survives raw (by omega) (status.of_size size₂) (statement.of_size size₂))

end Engine

end SchemaHighlighter
