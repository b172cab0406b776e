import SchemaHighlighter.Text.Utf8
import SchemaHighlighter.Text.Word
import SchemaHighlighter.Engine.Linear

/-!
# A small grammar and its engine

A statement ends with a semicolon or opens a block with a brace; a closing brace is a statement
of its own. What stands before the end is read as words, divided by blanks and by the equals
sign, which is a word itself. The words decide what the statement is.

The engine of this grammar can be made to answer wrongly, to try out what reads its answers.
-/
namespace SchemaHighlighter.Grammar

/-- A word and the byte at which it begins. -/
structure Word where
  offset : Nat
  text : Text
  deriving DecidableEq, Repr

def Word.is (w : Word) (s : String) : Bool := w.text = s.toList

def Word.view (w : Word) : View := .within w.offset (Text.byteLength w.text)

/-- Reads words from `text`, which begins at byte `offset`. `begun` is the word that the text
before it ended in, read backwards. -/
def wordsFrom (offset : Nat) (begun : Option Word) : Text → List Word
  | [] => (begun.map fun w => { w with text := w.text.reverse }).toList
  | c :: rest =>
    if Text.isBlank c || c = '=' then
      (begun.map fun w => { w with text := w.text.reverse }).toList ++
        (if c = '=' then [⟨offset, ['=']⟩] else []) ++
        wordsFrom (offset + c.utf8Size) none rest
    else
      let word := match begun with
        | none => ⟨offset, [c]⟩
        | some w => { w with text := c :: w.text }
      wordsFrom (offset + c.utf8Size) (some word) rest

def words (offset : Nat) (text : Text) : List Word := wordsFrom offset none text

/-- What a statement says, with the words that say it. -/
inductive Phrase where
  | blockEnd
  | package (keyword : Word) (main : Option Word) (name : Word)
  | importing (keyword name : Word)
  | definition (kind : DefinitionKind) (keyword name : Word)
  | generates
  | enumValue (name : Word) (value : Int)
  | field (type : BuiltinType) (typeWord name : Word)
  | userField
  deriving DecidableEq, Repr

/-- The value of decimal digits, at least one. -/
def digits? (text : Text) : Option Nat :=
  if text ≠ [] ∧ text.all Char.isDigit then
    some (text.foldl (fun n c => 10 * n + (c.toNat - '0'.toNat)) 0)
  else none

/-- A decimal integer, with or without a sign, that is a signed word. -/
def integer? (text : Text) : Option Int := do
  let value : Int ← match text with
    | '-' :: rest => (fun n : Nat => -(n : Int)) <$> digits? rest
    | '+' :: rest => (fun n : Nat => (n : Int)) <$> digits? rest
    | _ => (fun n : Nat => (n : Int)) <$> digits? text
  if -0x80000000 ≤ value ∧ value < 0x80000000 then some value else none

namespace Phrase

/-- The declaration that a keyword begins. -/
def definition? (keyword : Word) : Option DefinitionKind :=
  [DefinitionKind.component, .transient, .system, .action, .enum].find?
    fun d => keyword.is d.keyword

def ofWords? : List Word → Option Phrase
  | [w] => if w.is "generates" then some .generates else none
  | [w, name] =>
    if w.is "package" then some (.package w none name)
    else if w.is "import" then some (.importing w name)
    else match definition? w with
      | some d => some (.definition d w name)
      | none => match BuiltinType.all.find? fun t => w.is t.keyword with
        | some t => some (.field t w name)
        | none => some .userField
  | [w, second, third] =>
    if w.is "package" && second.is "main" then some (.package w (some second) third)
    else if second.is "=" then (.enumValue w ·) <$> integer? third.text
    else none
  | _ => none

def kind : Phrase → StatementKind
  | blockEnd => .none
  | package .. => .package
  | importing .. => .importing
  | definition d .. => d.kind
  | generates => .systemGenerates
  | enumValue .. => .enumValue
  | field .. => .builtinTypeField
  | userField => .userTypeField

def payload : Phrase → List Field
  | package _ main name => [.word (if main.isSome then 1 else 0), .view name.view]
  | importing _ name => [.view name.view]
  | definition _ _ name => [.view name.view]
  | enumValue name value => [.view name.view, .word value]
  | field type _ name => [.word type.toRaw, .view name.view, .word 0]
  | blockEnd | generates | userField => []

end Phrase

inductive Parsed where
  | statement (code : StatusCode) (consumed : Nat) (phrase : Phrase)
  | failure (code : StatusCode) (location : Option View)
  deriving DecidableEq, Repr

def endsStatement (c : Char) : Bool := c = ';' || c = '{'

def parse (text : Text) : Parsed :=
  let start := Text.byteLength (text.takeWhile Text.isBlank)
  let body := text.dropWhile Text.isBlank
  match body with
  | [] => .failure .unexpectedEof none
  | c :: _ =>
    if c = '}' then .statement .blockEnd (start + 1) .blockEnd
    else
      let inner := body.takeWhile (!endsStatement ·)
      match body.dropWhile (!endsStatement ·) with
      | [] => .failure .expectedStatementEnd ((words start body).head?.map Word.view)
      | last :: _ =>
        let length := Text.byteLength inner
        match Phrase.ofWords? (words start inner) with
        | some phrase =>
          let code := if last = '{' then StatusCode.blockBegin else .ok
          .statement code (start + length + 1) phrase
        | none => .failure .syntaxError (some (.within start length))

/-- Ways in which the engine may answer wrongly. -/
structure Faults where
  /-- The count to give in place of the true one. -/
  count : Option Int := none
  /-- From this call on, the first being number one, every view begins far outside memory. -/
  corruptFrom : Option Nat := none
  /-- At the end of this call and every later one, the engine asks for the scan to stop. -/
  cancelFrom : Option Nat := none
  /-- The code to give in place of a field's type. -/
  fieldType : Option Int := none
  deriving DecidableEq, Repr

structure State where
  faults : Faults := {}
  nextId : Int := 1
  calls : Nat := 0
  deriving DecidableEq, Repr

def farOutside : Int := 0x7FFF0000

def corruptView : View → View
  | .within _ length => .words farOutside length
  | .words _ length => .words farOutside length

def corruptField : Field → Field
  | .word value => .word value
  | .view v => .view (corruptView v)

/-- The payload with the fault in a field's type. -/
def Faults.payload (faults : Faults) (phrase : Phrase) : List Field :=
  match phrase, faults.fieldType with
  | .field _ _ name, some raw => [.word raw, .view name.view, .word 0]
  | _, _ => phrase.payload

/-- The answer to an input. Ids count the statements found. -/
def answer (bytes : List UInt8) (s : Linear State) : Answer × Linear State :=
  let state := s.own
  let calls := state.calls + 1
  let corrupt := state.faults.corruptFrom.any (· ≤ calls)
  let cancelled := s.cancelled || state.faults.cancelFrom.any (· ≤ calls)
  match parse (Text.decode bytes) with
  | .statement code consumed phrase =>
    let payload := state.faults.payload phrase
    let payload := if corrupt then payload.map corruptField else payload
    ({ code := code.toRaw
       statement := some { id := state.nextId, kind := phrase.kind.toRaw, payload }
       count := state.faults.count.getD consumed },
      { s with cancelled, own := { state with calls, nextId := state.nextId + 1 } })
  | .failure code location =>
    ({ code := code.toRaw
       location := if corrupt then location.map corruptView else location
       count := state.faults.count.getD 0 },
      { s with cancelled, own := { state with calls } })

def engine : Engine (Linear State) := .answering answer

end SchemaHighlighter.Grammar
