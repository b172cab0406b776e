import SchemaHighlighter.Settings.Basic

/-!
# Processes

The part of an operating system that starts processes. A start either fails with a cause or
creates a new process that runs. A process runs until it ends by itself or is killed, and is
done with when it has been waited for. Each of its two pipes can be taken once. Processes are
known by their number, in the order of their start.
-/
namespace SchemaHighlighter

inductive ProcessState where
  | running
  | exited
  /-- Exited and waited for. -/
  | reaped
  deriving DecidableEq, Repr

structure Process where
  executable : Executable
  state : ProcessState := .running
  /-- Whether the pipe into the process has not yet been handed out. -/
  hasInput : Bool := true
  /-- Whether the pipe out of the process has not yet been handed out. -/
  hasOutput : Bool := true
  deriving DecidableEq, Repr

structure System where
  processes : List Process := []
  /-- The command lines of all starts that were tried, in order. -/
  attempts : List Executable := []
  deriving DecidableEq, Repr

/-- Why a start fails, if it does; it may depend on how many were tried before. -/
abbrev Refusal := Nat → Executable → Option String

namespace System

def state? (s : System) (id : Nat) : Option ProcessState := s.processes[id]?.map (·.state)

def update (s : System) (id : Nat) (f : Process → Process) : System :=
  { s with processes := s.processes.modify id f }

def spawn (refusal : Refusal) (x : Executable) (s : System) : Except String Nat × System :=
  let attempts := s.attempts ++ [x]
  match refusal s.attempts.length x with
  | some cause => (.error cause, { s with attempts })
  | none =>
    (.ok s.processes.length,
      { processes := s.processes ++ [{ executable := x }], attempts })

/-- The end of a process, by itself or by force. -/
def exit (s : System) (id : Nat) : System :=
  s.update id fun p => if p.state = .running then { p with state := .exited } else p

/-- Waits for a process that has exited. -/
def reap (s : System) (id : Nat) : System :=
  s.update id fun p => if p.state = .exited then { p with state := .reaped } else p

/-- Takes the pipe into a process, and says whether it was still there. -/
def takeInput (s : System) (id : Nat) : Bool × System :=
  (s.processes[id]?.any (·.hasInput), s.update id fun p => { p with hasInput := false })

/-- Takes the pipe out of a process, and says whether it was still there. -/
def takeOutput (s : System) (id : Nat) : Bool × System :=
  (s.processes[id]?.any (·.hasOutput), s.update id fun p => { p with hasOutput := false })

/-- Hands out the pipes of a process. Without the first the second is left where it is. -/
def takePipes (s : System) (id : Nat) : Bool × System :=
  match s.takeInput id with
  | (true, s) => s.takeOutput id
  | (false, s) => (false, s)

end System

end SchemaHighlighter
