import SchemaHighlighter.Engine.Basic
import SchemaHighlighter.Language

/-!
# Events worth a log line

What goes wrong without ending the work is told in the log, as a warning or an error.
-/
namespace SchemaHighlighter

/-- A server process that could not be started. -/
structure SpawnError where
  command : String
  cause : String
  deriving DecidableEq, Repr

def SpawnError.message (e : SpawnError) : String := s!"failed to start `{e.command}`: {e.cause}"

inductive LogEvent where
  /-- An engine's count that lies outside an input of this length. -/
  | countClamped (raw : Int) (length : Nat)
  | parseFailed (error : EngineError)
  | loadFailed (error : EngineError)
  | startFailed (error : SpawnError)
  | restartFailed (error : SpawnError)
  deriving DecidableEq, Repr

def LogEvent.render : LogEvent → String
  | countClamped raw length =>
    s!"WARN [engine] consumed count {raw} outside input of {length} bytes, clamping"
  | parseFailed error => s!"ERROR [engine] statement parse failed: {error.message}"
  | loadFailed error => s!"ERROR [engine] failed to load statement engine: {error.message}"
  | startFailed error => s!"ERROR {serverLogTag} {error.message}"
  | restartFailed error => s!"ERROR {serverLogTag} restart failed: {error.message}"

end SchemaHighlighter
