import SchemaHighlighter.Record.Answer
import SchemaHighlighter.Record.Result

/-!
# What an answer means

The result that an answer stands for, told from the answer and the input alone, without a
memory between them. An answer has a meaning if its views lie in the input, its payload has the
shape of its kind, and it brings a statement exactly when its code is resumable.
-/
namespace SchemaHighlighter

/-- The signed word that is left of a number in 32 bits. -/
def signedWord (n : Int) : Int := Int.bmod n 0x100000000

def View.span? (input : List UInt8) : View → Option SourceSpan
  | within start length =>
    if start + length ≤ input.length then
      some {
        value := ((input.drop start).take length).map fun b => Char.ofNat b.toNat
        offset := start }
    else none
  | words .. => none

def Draft.meaning? (input : List UInt8) (d : Draft) : Option StatementData :=
  let define (k : DefinitionKind) : Option StatementData := match d.payload with
    | [.view name] => (name.span? input).map (.definition k)
    | _ => none
  match StatementKind.ofRaw d.kind with
  | .package => match d.payload with
    | [.word isMain, .view name] => (name.span? input).map (.package (isMain % 0x100 != 0))
    | _ => none
  | .importing => match d.payload with
    | [.view name] => (name.span? input).map .importing
    | _ => none
  | .component => define .component
  | .transient => define .transient
  | .system => define .system
  | .action => define .action
  | .enum => define .enum
  | .enumValue => match d.payload with
    | [.view name, .word value] =>
      (name.span? input).map fun name => .enumValue name (signedWord value)
    | _ => none
  | .builtinTypeField => match d.payload with
    | [.word type, .view name, .word length] =>
      (name.span? input).map fun name =>
        .field (BuiltinType.ofRaw? (signedWord type)) name (signedWord length)
    | _ => none
  | .none => some (.bare .none)
  | .unknown => some (.bare .unknown)
  | .userTypeField => some (.bare .userTypeField)
  | .entityField => some (.bare .entityField)
  | .systemComponent => some (.bare .systemComponent)
  | .systemGenerates => some (.bare .systemGenerates)
  | .systemWithEntity => some (.bare .systemWithEntity)
  | .entityConstraint => some (.bare .entityConstraint)

namespace Answer

/-- The status: a place of the error counts for a code that ends the scan, unless it is empty. -/
def status? (input : List UInt8) (a : Answer) : Option Status :=
  let code := StatusCode.ofRaw a.code
  match a.location with
  | none => some { code }
  | some v =>
    (v.span? input).map fun errorLocation =>
      if code.isResumable ∨ errorLocation.value = [] then { code } else { code, errorLocation }

def statement? (input : List UInt8) (a : Answer) : Option (Option Statement) :=
  match a.statement, (StatusCode.ofRaw a.code).isResumable with
  | some d, true => (d.meaning? input).map fun data => some { id := signedWord d.id, data }
  | none, false => some none
  | _, _ => none

def meaning? (input : List UInt8) (a : Answer) : Option ParseResult := do
  let status ← a.status? input
  let statement ← a.statement? input
  return {
    status, statement
    consumed := clampCount a.count input.length
    log := countLog a.count input.length }

end Answer

end SchemaHighlighter
