import SchemaHighlighter.Highlight.Token

/-!
# The relative form of a token list

Editors take tokens in order of position, five numbers each: lines since the token before,
columns since it on the same line, else since the line's start, the length, the index of the
type and the modifier bits. Reading adds the differences up again.
-/
namespace SchemaHighlighter.Delta

/-- Order by line, then column. -/
def notAfter (s t : Token) : Bool :=
  s.line < t.line || s.line = t.line && s.column ≤ t.column

/-- The tokens in order of position, those at one position as they came. -/
def sorted (tokens : List Token) : List Token := tokens.mergeSort notAfter

/-- The numbers of tokens in order, the first of them relative to a line and a column. -/
def encodeFrom (line column : Nat) : List Token → List Nat
  | [] => []
  | t :: rest =>
    let start := if t.line = line then t.column - column else t.column
    (t.line - line) :: start :: t.length :: t.type.index :: 0 :: encodeFrom t.line t.column rest

def encode (tokens : List Token) : List Nat := encodeFrom 0 0 (sorted tokens)

/-- Adds differences up from a line and a column. Fails on an unknown type, on modifiers and on
a number of numbers that is no multiple of five. -/
def decodeFrom? (line column : Nat) : List Nat → Option (List Token)
  | [] => some []
  | lines :: start :: length :: index :: 0 :: rest => do
    let type ← TokenType.ofIndex? index
    let line' := line + lines
    let column' := if lines = 0 then column + start else start
    let tokens ← decodeFrom? line' column' rest
    return ⟨line', column', length, type⟩ :: tokens
  | _ => none

def decode? (numbers : List Nat) : Option (List Token) := decodeFrom? 0 0 numbers

end SchemaHighlighter.Delta
