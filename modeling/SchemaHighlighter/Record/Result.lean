import SchemaHighlighter.Log
import SchemaHighlighter.Record.Status
import SchemaHighlighter.Record.Statement

/-!
# The result of parsing

What one call of the engine comes to: the status, how much of the input the statement took, the
statement, and what the call had to report. The count is the engine's own, brought into the bounds
of the input, and a count that lies outside them is reported.
-/
namespace SchemaHighlighter

structure ParseResult where
  status : Status
  /-- How many bytes of the input belong to the statement, blanks before it included. -/
  consumed : Nat
  /-- Present exactly when the status is resumable. -/
  statement : Option Statement
  log : List LogEvent := []
  deriving DecidableEq, Repr

def ParseResult.isResumable (r : ParseResult) : Bool := r.status.code.isResumable

/-- The count brought into the bounds of an input of `length` bytes. -/
def clampCount (raw : Int) (length : Nat) : Nat := min raw.toNat length

/-- The report of a count that lies outside an input of `length` bytes. -/
def countLog (raw : Int) (length : Nat) : List LogEvent :=
  if raw < 0 ∨ (length : Int) < raw then [.countClamped raw length] else []

end SchemaHighlighter
