import SchemaHighlighter.Memory.Basic

/-!
# The statement record

A statement of the schema language, as the engine leaves it in 64 bytes: an id, a kind, and a
payload whose shape follows from the kind. Nine kinds carry a name.
-/
namespace SchemaHighlighter

inductive StatementKind where
  | none
  | unknown
  | package
  | importing
  | component
  | transient
  | system
  | action
  | enum
  | enumValue
  | builtinTypeField
  | userTypeField
  | entityField
  | systemComponent
  | systemGenerates
  | systemWithEntity
  | entityConstraint
  deriving DecidableEq, Repr, Inhabited

namespace StatementKind

def all : List StatementKind :=
  [none, unknown, package, importing, component, transient, system, action, enum, enumValue,
    builtinTypeField, userTypeField, entityField, systemComponent, systemGenerates,
    systemWithEntity, entityConstraint]

/-- Every code that is not in use is read as `unknown`. -/
def ofRaw (raw : Int) : StatementKind := if raw < 0 then unknown else all.getD raw.toNat unknown

def toRaw (kind : StatementKind) : Int := all.idxOf kind

/-- The keyword that begins a declaration of this kind. -/
def keyword? : StatementKind → Option String
  | package => "package"
  | importing => "import"
  | component => "component"
  | transient => "transient"
  | system => "system"
  | action => "action"
  | enum => "enum"
  | _ => Option.none

theorem ofRaw_toRaw (kind : StatementKind) : ofRaw kind.toRaw = kind := by
  cases kind <;> decide

end StatementKind

/-- The field types that are part of the language. -/
inductive BuiltinType where
  | bool
  | i8
  | u8
  | i16
  | u16
  | i32
  | u32
  | f32
  | entity
  deriving DecidableEq, Repr

namespace BuiltinType

def all : List BuiltinType := [bool, i8, u8, i16, u16, i32, u32, f32, entity]

def ofRaw? (raw : Int) : Option BuiltinType := if raw < 0 then none else all[raw.toNat]?

def toRaw (type : BuiltinType) : Int := all.idxOf type

def keyword : BuiltinType → String
  | bool => "bool"
  | i8 => "i8"
  | u8 => "u8"
  | i16 => "i16"
  | u16 => "u16"
  | i32 => "i32"
  | u32 => "u32"
  | f32 => "f32"
  | entity => "entity"

theorem ofRaw?_toRaw (type : BuiltinType) : ofRaw? type.toRaw = some type := by
  cases type <;> decide

end BuiltinType

/-- The declarations that consist of a keyword and a name. -/
inductive DefinitionKind where
  | component
  | transient
  | system
  | action
  | enum
  deriving DecidableEq, Repr

/-- The kinds without a payload. -/
inductive BareKind where
  | none
  | unknown
  | userTypeField
  | entityField
  | systemComponent
  | systemGenerates
  | systemWithEntity
  | entityConstraint
  deriving DecidableEq, Repr

namespace DefinitionKind

def kind : DefinitionKind → StatementKind
  | component => .component
  | transient => .transient
  | system => .system
  | action => .action
  | enum => .enum

def keyword : DefinitionKind → String
  | component => "component"
  | transient => "transient"
  | system => "system"
  | action => "action"
  | enum => "enum"

end DefinitionKind

def BareKind.kind : BareKind → StatementKind
  | none => .none
  | unknown => .unknown
  | userTypeField => .userTypeField
  | entityField => .entityField
  | systemComponent => .systemComponent
  | systemGenerates => .systemGenerates
  | systemWithEntity => .systemWithEntity
  | entityConstraint => .entityConstraint

inductive StatementData where
  | package (isMain : Bool) (name : SourceSpan)
  | importing (name : SourceSpan)
  | definition (kind : DefinitionKind) (name : SourceSpan)
  | enumValue (name : SourceSpan) (value : Int)
  /-- The type is absent when its code is not in use. -/
  | field (type : Option BuiltinType) (name : SourceSpan) (length : Int)
  | bare (kind : BareKind)
  deriving DecidableEq, Repr

namespace StatementData

def kind : StatementData → StatementKind
  | package .. => .package
  | importing _ => .importing
  | definition d _ => d.kind
  | enumValue .. => .enumValue
  | field .. => .builtinTypeField
  | bare k => k.kind

def name? : StatementData → Option SourceSpan
  | package _ name | importing name | definition _ name | enumValue name _ | field _ name _ => name
  | bare _ => none

end StatementData

structure Statement where
  id : Int
  data : StatementData
  deriving DecidableEq, Repr

def Statement.kind (s : Statement) : StatementKind := s.data.kind

def Statement.recordSize : Nat := 64

/-- Reads a payload of the given kind at `offset`. Kinds without a payload read nothing. -/
def StatementData.read (m : Memory) (kind : StatementKind) (offset base : Nat) :
    Except AccessError StatementData := do
  let define (d : DefinitionKind) := return .definition d (← m.readSpan offset base)
  match kind with
  | .package =>
    let isMain ← m.readByte offset
    return .package (isMain != 0) (← m.readSpan (← addressAfter offset 4) base)
  | .importing => return .importing (← m.readSpan offset base)
  | .component => define .component
  | .transient => define .transient
  | .system => define .system
  | .action => define .action
  | .enum => define .enum
  | .enumValue =>
    let name ← m.readSpan offset base
    return .enumValue name (← m.readWord (← addressAfter offset 8))
  | .builtinTypeField =>
    let type ← m.readWord offset
    let name ← m.readSpan (← addressAfter offset 4) base
    return .field (BuiltinType.ofRaw? type) name (← m.readWord (← addressAfter offset 12))
  | .none => return .bare .none
  | .unknown => return .bare .unknown
  | .userTypeField => return .bare .userTypeField
  | .entityField => return .bare .entityField
  | .systemComponent => return .bare .systemComponent
  | .systemGenerates => return .bare .systemGenerates
  | .systemWithEntity => return .bare .systemWithEntity
  | .entityConstraint => return .bare .entityConstraint

/-- Reads the statement at `offset`, for an input that begins at `base`. -/
def Statement.read (m : Memory) (offset base : Nat) : Except AccessError Statement := do
  let id ← m.readWord offset
  let kind := StatementKind.ofRaw (← m.readWord (← addressAfter offset 4))
  return { id, data := ← StatementData.read m kind (← addressAfter offset 8) base }

end SchemaHighlighter
