import SchemaHighlighter.Text.Position

/-!
# The table of line starts

The bytes of a text are gone through once to find where its lines start. With the table a
position is found by cutting its line out of the text and counting characters there. The table
holds 32-bit numbers. A cut inside a character, or a line that would end before byte 0, ends
the program.
-/
namespace SchemaHighlighter

/-- Where the lines of a text start, and where the last one ends. -/
structure LineIndex where
  starts : List Nat
  length : Nat
  deriving DecidableEq, Repr

namespace LineIndex

/-- Where lines start behind the line breaks among some bytes, the first of which is byte `n`. -/
def startsFrom (n : Nat) : List UInt8 → List Nat
  | [] => []
  | b :: rest =>
    if b = 0x0A then (n + 1) % 0x100000000 :: startsFrom (n + 1) rest else startsFrom (n + 1) rest

def ofText (text : Text) : LineIndex :=
  ⟨0 :: startsFrom 0 (Text.encode text), Text.byteLength text⟩

def lineCount (index : LineIndex) : Nat := index.starts.length

/-- Where a line ends, before its line break. -/
def lineEnd? (index : LineIndex) (line : Nat) : Option Nat :=
  match index.starts[line + 1]? with
  | some next => if 0 < next then some (next - 1) else none
  | none => some index.length

/-- The byte offset of a position in the text that the table is of. -/
def offset? (index : LineIndex) (text : Text) (p : Position) : Option Nat :=
  match index.starts[p.line]? with
  | some start => do
    let line ← Text.slice? text start (← index.lineEnd? p.line)
    return start + Text.byteLength (line.take p.column)
  | none => some index.length

/-- The position behind the last character of the text that the table is of. -/
def endPosition? (index : LineIndex) (text : Text) : Option Position := do
  let last := index.lineCount - 1
  let line ← Text.slice? text (← index.starts[last]?) (Text.byteLength text)
  return ⟨last, line.length⟩

end LineIndex

end SchemaHighlighter
