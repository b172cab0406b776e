import SchemaHighlighter.Memory.Basic

/-!
# The status record

Every call of the engine leaves a status of twelve bytes: a code, then a view of the place
where the statement went wrong. After the first three codes a scan may go on.
-/
namespace SchemaHighlighter

inductive StatusCode where
  | ok
  | blockBegin
  | blockEnd
  | expectedStatementEnd
  | unexpectedEof
  | syntaxError
  deriving DecidableEq, Repr, Inhabited

namespace StatusCode

/-- Every value that is not in use is read as a syntax error. -/
def ofRaw (raw : Int) : StatusCode :=
  if raw = 0 then ok
  else if raw = 1 then blockBegin
  else if raw = 2 then blockEnd
  else if raw = 3 then expectedStatementEnd
  else if raw = 4 then unexpectedEof
  else syntaxError

def toRaw : StatusCode → Int
  | ok => 0
  | blockBegin => 1
  | blockEnd => 2
  | expectedStatementEnd => 3
  | unexpectedEof => 4
  | syntaxError => 5

/-- A statement was found and the text after it can be parsed. -/
def isResumable : StatusCode → Bool
  | ok | blockBegin | blockEnd => true
  | expectedStatementEnd | unexpectedEof | syntaxError => false

def isTerminal (code : StatusCode) : Bool := !code.isResumable

/-- The input ended inside a statement, so a longer input may complete it. -/
def needsMoreInput : StatusCode → Bool
  | expectedStatementEnd | unexpectedEof => true
  | ok | blockBegin | blockEnd | syntaxError => false

theorem ofRaw_toRaw (code : StatusCode) : ofRaw code.toRaw = code := by
  cases code <;> decide

end StatusCode

structure Status where
  code : StatusCode := .ok
  errorLocation : SourceSpan := {}
  deriving DecidableEq, Repr, Inhabited

def viewSize : Nat := 8

def Status.recordSize : Nat := 12

/-- Reads the status at `offset`, for an input that begins at `base`. The place of the error is
read only for a code that ends the scan, and only if its view is not empty. -/
def Status.read (m : Memory) (offset base : Nat) : Except AccessError Status := do
  let code := StatusCode.ofRaw (← m.readWord offset)
  if code.isResumable then return { code }
  let length ← m.readWord (← addressAfter offset 8)
  if 0 < length then
    return { code, errorLocation := ← m.readSpan (← addressAfter offset 4) base }
  return { code }

end SchemaHighlighter
