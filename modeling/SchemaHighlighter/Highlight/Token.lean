import SchemaHighlighter.Text.Position
import SchemaHighlighter.Text.Word
import SchemaHighlighter.Record.Statement

/-!
# Semantic tokens

A token is a stretch of one line together with what it is. A statement gives a token for each
of its keywords that is found before its name, and one for the name.
-/
namespace SchemaHighlighter

inductive TokenType where
  | packageName
  | typeName
  | enumMember
  | property
  | keyword
  deriving DecidableEq, Repr, Inhabited

namespace TokenType

/-- The types in the order of their indices. -/
def all : List TokenType := [packageName, typeName, enumMember, property, keyword]

def index (t : TokenType) : Nat := all.idxOf t

def ofIndex? (n : Nat) : Option TokenType := all[n]?

def name : TokenType → String
  | packageName => "namespace"
  | typeName => "type"
  | enumMember => "enumMember"
  | property => "property"
  | keyword => "keyword"

theorem ofIndex?_index (t : TokenType) : ofIndex? t.index = some t := by cases t <;> decide

end TokenType

/-- The modifiers that are announced. No token carries one. -/
def tokenModifiers : List String := ["declaration"]

/-- The names by which token types and modifiers are announced, in the order of their indices. -/
structure Legend where
  tokenTypes : List String
  tokenModifiers : List String
  deriving DecidableEq, Repr

def legend : Legend := ⟨TokenType.all.map TokenType.name, tokenModifiers⟩

/-- Line, column and length count characters and are unsigned 32-bit numbers. -/
structure Token where
  line : Nat
  column : Nat
  length : Nat
  type : TokenType
  deriving DecidableEq, Repr

/-- Numbers too large for 32 bits keep their low bits. -/
def Token.at (p : Position) (length : Nat) (type : TokenType) : Token :=
  ⟨p.line % 0x100000000, p.column % 0x100000000, length % 0x100000000, type⟩

namespace StatementData

/-- The keywords that may stand before the name, the nearest first. -/
def keywords : StatementData → List String
  | package isMain _ => if isMain then ["main", "package"] else ["package"]
  | importing _ => ["import"]
  | definition d _ => [d.keyword]
  | field (some type) _ _ => [type.keyword]
  | field none _ _ | enumValue .. | bare _ => []

def nameType : StatementData → TokenType
  | package .. | definition .. => .typeName
  | importing _ => .packageName
  | enumValue .. => .enumMember
  | field .. => .property
  | bare _ => .keyword

end StatementData

/-- The token of the last whole word `word` that ends before byte `limit` of `source`, which
begins at `anchor`. -/
def keywordToken? (isWord : Char → Bool) (anchor : Position) (source : Text) (limit : Nat)
    (word : String) : Option Token :=
  (Text.findKeywordBefore isWord source word.toList limit).map fun i =>
    .at (anchor.walked source i) word.length .keyword

/-- How many characters of `source` the name covers. A name that does not lie there between
characters counts one for each byte. -/
def nameLength (source : Text) (name : SourceSpan) : Nat :=
  match Text.slice? source name.offset name.stop with
  | some characters => characters.length
  | none => name.value.length

/-- The token of a name, unless it is empty. -/
def nameToken? (anchor : Position) (source : Text) (name : SourceSpan) (type : TokenType) :
    Option Token :=
  if nameLength source name = 0 then none
  else some (.at (anchor.walked source name.offset) (nameLength source name) type)

/-- The tokens of a statement whose text is `source` and begins at `anchor`. -/
def Statement.tokens (isWord : Char → Bool) (s : Statement) (anchor : Position) (source : Text) :
    List Token :=
  match s.data.name? with
  | none => []
  | some name =>
    s.data.keywords.filterMap (keywordToken? isWord anchor source name.offset) ++
      (nameToken? anchor source name s.data.nameType).toList

end SchemaHighlighter
