import SchemaHighlighter.Record.Status
import SchemaHighlighter.Record.Statement

/-!
# Writing an answer

An answer is what an engine has to say about an input, before it is laid out in the two
records. This is the other side of reading them: words and views in the same places.
-/
namespace SchemaHighlighter

/-- Bytes named by an answer. -/
inductive View where
  /-- A stretch of the input, from its first byte on. -/
  | within (start length : Nat)
  /-- Any two words in the place of a view. -/
  | words (start length : Int)
  deriving DecidableEq, Repr

inductive Field where
  | word (value : Int)
  | view (v : View)
  deriving DecidableEq, Repr

/-- A statement as its record holds it. -/
structure Draft where
  id : Int
  kind : Int
  payload : List Field := []
  deriving DecidableEq, Repr

structure Answer where
  code : Int
  /-- Where the statement went wrong; without it the view is not written. -/
  location : Option View := none
  statement : Option Draft := none
  count : Int := 0
  deriving DecidableEq, Repr

/-- The two words of a view, for an input that begins at `base`. -/
def View.toWords (base : Nat) : View → List Int
  | within start length => [(base + start : Nat), length]
  | words start length => [start, length]

def Field.toWords (base : Nat) : Field → List Int
  | word value => [value]
  | view v => v.toWords base

/-- Puts words one after another from `offset` on. -/
def Memory.storeWords (m : Memory) (offset : Nat) (values : List Int) : Memory :=
  m.store offset (values.flatMap bytesOfWord)

namespace Answer

def statusWords (base : Nat) (a : Answer) : List Int :=
  a.code :: (a.location.map (View.toWords base)).getD []

/-- The words of the statement record, none if there is no statement. -/
def statementWords (base : Nat) (a : Answer) : List Int :=
  match a.statement with
  | none => []
  | some d => d.id :: d.kind :: d.payload.flatMap (Field.toWords base)

def store (a : Answer) (base status statement : Nat) (m : Memory) : Memory :=
  (m.storeWords status (a.statusWords base)).storeWords statement (a.statementWords base)

end Answer

end SchemaHighlighter
