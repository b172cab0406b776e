import SchemaHighlighter.Language

/-!
# Documents that the server is given

A document belongs to the server by its address scheme and its language; where the language is
not known, by the extension of its path.
-/
namespace SchemaHighlighter

structure DocumentSelector where
  scheme : String := documentScheme
  languageId : String := languageId
  watchGlob : String := watchGlob
  deriving DecidableEq, Repr

/-- The last name in a path, if it names something within a directory. Empty names and single
dots do not count. -/
def fileName? (path : String) : Option String :=
  match ((path.splitOn "/").filter fun name => name ≠ "" ∧ name ≠ ".").getLast? with
  | some ".." | none => none
  | some name => some name

/-- What follows the last dot of a file name, unless nothing comes before that dot. -/
def nameExtension? (name : String) : Option String :=
  let reversed := name.toList.reverse
  match reversed.dropWhile (· ≠ '.') with
  | [] | [_] => none
  | _ => some (String.ofList (reversed.takeWhile (· ≠ '.')).reverse)

def extension? (path : String) : Option String := fileName? path >>= nameExtension?

def DocumentSelector.covers (s : DocumentSelector) (scheme : String) (language : Option String)
    (path : String) : Bool :=
  scheme = s.scheme &&
    match language with
    | some id => id = s.languageId
    | none => extension? path = some fileExtension

end SchemaHighlighter
