import SchemaHighlighter.Log
import SchemaHighlighter.Server.System

/-!
# The language client

A client starts, stops and restarts one server process. It has no more than one at a time, and
waits for it before it forgets it.
-/
namespace SchemaHighlighter

structure Client where
  executable : Executable
  child : Option Nat := none
  deriving DecidableEq, Repr

namespace Client

/-- Whether the server runs. One that has exited is waited for and forgotten. -/
def isRunning (c : Client) (s : System) : Bool × Client × System :=
  match c.child with
  | none => (false, c, s)
  | some id =>
    if s.state? id = some .running then (true, c, s)
    else (false, { c with child := none }, s.reap id)

def pid (c : Client) (s : System) : Option Nat × Client × System :=
  match c.isRunning s with
  | (true, c, s) => (c.child, c, s)
  | (false, c, s) => (none, c, s)

def start (refusal : Refusal) (c : Client) (s : System) :
    Except SpawnError Unit × Client × System :=
  match c.isRunning s with
  | (true, c, s) => (.ok (), c, s)
  | (false, c, s) =>
    match s.spawn refusal c.executable with
    | (.ok id, s) => (.ok (), { c with child := some id }, s)
    | (.error cause, s) => (.error ⟨c.executable.command, cause⟩, c, s)

/-- Ends the server, waits for it and forgets it. -/
def stop (c : Client) (s : System) : Client × System :=
  match c.child with
  | none => (c, s)
  | some id => ({ c with child := none }, (s.exit id).reap id)

def restart (refusal : Refusal) (c : Client) (s : System) :
    Except SpawnError Unit × Client × System :=
  let (c, s) := c.stop s
  c.start refusal s

/-- Hands out the pipes of the server, once. -/
def takePipes (c : Client) (s : System) : Bool × System :=
  match c.child with
  | none => (false, s)
  | some id => s.takePipes id

end Client

end SchemaHighlighter
