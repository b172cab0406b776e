import SchemaHighlighter.Engine.Basic
import SchemaHighlighter.Record.Result

/-!
# Parsing one statement

The input and two cleared records are laid out in scratch space, the engine is called once,
and its records are read back. All scratch space is released again on every path.
-/
namespace SchemaHighlighter

namespace Engine

variable {σ : Type} (e : Engine σ)

/-- Lays out the input with a zero byte after it, then the two records, all zero. -/
def marshal (text : Text) : Action σ ParseCall := do
  let length := Text.byteLength text
  let input ← e.alloc (length + 1)
  Action.change (Memory.write input (Text.encode text))
  let terminator ← Action.read fun _ => addressAfter input length
  Action.change (Memory.write terminator [0])
  let status ← e.alloc Status.recordSize
  Action.change (Memory.fillZero status Status.recordSize)
  let statement ← e.alloc Statement.recordSize
  Action.change (Memory.fillZero statement Statement.recordSize)
  return { input, length, statement, status }

/-- Reads back what a call left that answered `raw`. A count outside the input is reported once
everything has been read. -/
def readAnswer (call : ParseCall) (raw : Int) (m : Memory) : Except AccessError ParseResult := do
  let status ← Status.read m call.status call.input
  let statement ←
    if status.code.isResumable then
      some <$> Statement.read m call.statement call.input
    else pure none
  return {
    status, statement
    consumed := clampCount raw call.length
    log := countLog raw call.length }

/-- Parses the first statement of `text`. A text that cannot lie in the 32-bit address space
with its terminator is refused before anything is done. -/
def parseStatement (text : Text) : Action σ ParseResult := fun m =>
  if 0x100000000 ≤ Text.byteLength text + 1 then (.error (.stackOverflow 0xFFFFFFFF 0), m)
  else
    e.inScratch (do
      let call ← e.marshal text
      let raw ← e.parse call
      Action.read (readAnswer call raw)) m

end Engine

end SchemaHighlighter
