import SchemaHighlighter.Text.Basic

/-!
# Positions in a text

Lines and columns count from zero, and columns count characters. Positions are ordered by
line, then column. A position walks over text one character at a time.

A line ends before its line break, and a text has one line more than it has line breaks.
Every position names a byte offset: past the end of its line it means the line's end, and
past the last line the end of the text.

Two loops find the place of a cut. A walk goes on from character to character and ends before
the first that goes past the cut. A cut inside a character is moved back from byte to byte, by
nothing but the byte that stands there. Lines and columns are counted up to a limit, and a count
that comes to it ends the program.
-/
namespace SchemaHighlighter

structure Position where
  line : Nat := 0
  column : Nat := 0
  deriving DecidableEq, Repr, Inhabited

namespace Position

instance : LT Position := ⟨fun p q => p.line < q.line ∨ p.line = q.line ∧ p.column < q.column⟩
instance : LE Position := ⟨fun p q => p.line < q.line ∨ p.line = q.line ∧ p.column ≤ q.column⟩

instance (p q : Position) : Decidable (p < q) :=
  inferInstanceAs (Decidable (p.line < q.line ∨ p.line = q.line ∧ p.column < q.column))
instance (p q : Position) : Decidable (p ≤ q) :=
  inferInstanceAs (Decidable (p.line < q.line ∨ p.line = q.line ∧ p.column ≤ q.column))

instance : Ord Position := ⟨fun p q => (compare p.line q.line).then (compare p.column q.column)⟩

/-- One character further: a line break leads to the start of the next line. -/
def advance (p : Position) (c : Char) : Position :=
  if c = '\n' then ⟨p.line + 1, 0⟩ else ⟨p.line, p.column + 1⟩

/-- The position after the whole text, read from `p` on. -/
def walk (p : Position) (text : Text) : Position := text.foldl advance p

/-- The position after the characters that lie wholly within the first `n` bytes. -/
def walked (p : Position) (text : Text) (n : Nat) : Position := p.walk (Text.takeBytes n text)

variable {p q r : Position}

theorem le_def : p ≤ q ↔ p.line < q.line ∨ p.line = q.line ∧ p.column ≤ q.column := Iff.rfl

theorem le_refl (p : Position) : p ≤ p := .inr ⟨rfl, Nat.le_refl _⟩

theorem le_trans (h : p ≤ q) (h' : q ≤ r) : p ≤ r := by
  rw [le_def] at h h' ⊢
  omega

theorem le_total (p q : Position) : p ≤ q ∨ q ≤ p := by
  rw [le_def, le_def]
  omega

theorem le_antisymm (h : p ≤ q) (h' : q ≤ p) : p = q := by
  rw [le_def] at h h'
  rcases p with ⟨line, column⟩
  rcases q with ⟨line', column'⟩
  dsimp only at h h'
  obtain ⟨rfl, rfl⟩ : line = line' ∧ column = column' := by omega
  rfl

theorem walk_append (p : Position) (s t : Text) : p.walk (s ++ t) = (p.walk s).walk t :=
  List.foldl_append

end Position

/-- The positions from `start` up to, and not including, `stop`. -/
structure Range where
  start : Position
  stop : Position
  deriving DecidableEq, Repr

/-- Nothing lies between the ends, which may also be the wrong way round. -/
def Range.isEmpty (r : Range) : Bool := decide (r.stop ≤ r.start)

/-! ## Lines -/

namespace Text

def lineCount (text : Text) : Nat := text.count '\n' + 1

/-- The characters after the last line break. -/
def lastLine (text : Text) : Text := (text.reverse.takeWhile (· ≠ '\n')).reverse

def endPosition (text : Text) : Position := ⟨text.count '\n', (lastLine text).length⟩

/-- The byte offset of a column in the first line of `text`, at most the end of that line. -/
def columnOffset : Text → Nat → Nat
  | [], _ => 0
  | _ :: _, 0 => 0
  | c :: rest, column + 1 => if c = '\n' then 0 else c.utf8Size + columnOffset rest column

/-- The byte offset of a line and a column in `text`. -/
def lineColumnOffset : Text → Nat → Nat → Nat
  | text, 0, column => columnOffset text column
  | [], _ + 1, _ => 0
  | c :: rest, line + 1, column =>
    c.utf8Size + lineColumnOffset rest (if c = '\n' then line else line + 1) column

/-- The byte offset of a position, cut back to the end of its line or of the text. -/
def offset (text : Text) (p : Position) : Nat := lineColumnOffset text p.line p.column

end Text

/-! ## The place of a cut -/

namespace Text

/-- The first byte of a character. Every further byte begins with the bits `10`. -/
def isLead (b : UInt8) : Bool := b < 0x80 || 0xC0 ≤ b

/-- A character begins at byte `i`, or the bytes end there. -/
def beginsAt (bytes : List UInt8) (i : Nat) : Bool :=
  i == 0 || i == bytes.length || bytes[i]?.any isLead

def stepBackFrom (bytes : List UInt8) : Nat → Nat
  | 0 => 0
  | i + 1 => if beginsAt bytes (i + 1) then i + 1 else stepBackFrom bytes i

/-- Steps back from byte `n`, or from the end of the text, to where a character begins. -/
def stepBack (text : Text) (n : Nat) : Nat :=
  stepBackFrom (encode text) (min n (byteLength text))

end Text

namespace Position

def advance? (limit : Nat) (p : Position) (c : Char) : Option Position :=
  if (p.advance c).line < limit ∧ (p.advance c).column < limit then some (p.advance c) else none

/-- Walks over characters of which the first is at byte `i`, up to the first that goes past
byte `n`. -/
def walkFrom? (limit n : Nat) : Nat → Position → Text → Option Position
  | _, p, [] => some p
  | i, p, c :: rest =>
    if n < i + c.utf8Size then some p
    else (p.advance? limit c).bind fun p => walkFrom? limit n (i + c.utf8Size) p rest

def walked? (limit : Nat) (p : Position) (text : Text) (n : Nat) : Option Position :=
  walkFrom? limit n 0 p text

end Position

end SchemaHighlighter
