import SchemaHighlighter.Settings.Basic
import SchemaHighlighter.Json.Reader

/-!
# Settings from JSON

Settings are read from a value or from a text. The entries stand under `ecsact`, `lsp` and
`executable`, one within the other. There each member is the entry of a platform, but for
`default`. In a text the entries of platforms are read as values and looked into when the last
of them has been read, so of two mistakes the one that ends the reading is told.
-/
namespace SchemaHighlighter

open JsonValue

def ExecutableEntry.ofJson? (v : JsonValue) : Option ExecutableEntry := do
  match ← fields? ["command", "args"] v with
  | [command, args] =>
    return { command := ← optional? string? command, args := ← optional? strings? args }
  | _ => none

namespace Settings

/-- Takes in the entries of platforms. Of two under one name the last counts. -/
def putAll? (s : Settings) : List (String × JsonValue) → Option Settings
  | [] => some s
  | (name, v) :: rest => do (s.put name (← ExecutableEntry.ofJson? v)).putAll? rest

def ofTable? : JsonValue → Option Settings
  | object members => do
    let entry ← match ← member? "default" members with
      | none => some {}
      | some v => ExecutableEntry.ofJson? v
    Settings.putAll? { default := entry } (members.filter (·.1 ≠ "default"))
  | _ => none

/-- Reads what stands under a path of names, each in a record of the one before. Where a name is
missing there are no settings. -/
def ofPath? : List String → JsonValue → Option Settings
  | [], v => ofTable? v
  | name :: path, v => do
    match ← fields? [name] v with
    | [some v] => ofPath? path v
    | _ => some {}

def path : List String := ["ecsact", "lsp", "executable"]

def ofJson? (v : JsonValue) : Option Settings := ofPath? path v

end Settings

/-! ## Reading from a text -/

open Json

/-- Takes the result of looking into a value, or else finds that it was not as expected. -/
def Json.Reader.expect {α : Type} : Option α → Reader α
  | some a => return a
  | none => throw .mismatch

namespace ExecutableEntry

def reader : Reader ExecutableEntry :=
  Reader.record
    [("command", fun e => do return { e with command := ← Reader.optional Reader.quoted }),
      ("args", fun e => do return { e with args := ← Reader.optional Reader.strings })] {}

end ExecutableEntry

namespace Settings

/-- Reads the entries, which lie as many brackets deep as the path is long. -/
def tableReader (path : List String) : Reader Settings := do
  if (← Reader.token) ≠ '{' then Reader.unexpected
  Reader.drop
  let (entry, platforms) ← Reader.repeating (fun first (entry, platforms) => do
    if !(← Reader.hasMember first) then return none
    let key ← Reader.string
    if key = "default" then
      if entry.isSome then throw .mismatch
      Reader.colon
      return some (some (← ExecutableEntry.reader), platforms)
    else
      Reader.colon
      let v ← Reader.value (Reader.nesting - (path.length + 1))
      return some (entry, (key, v) :: platforms)) (none, [])
  let settings ← Reader.expect
    (Settings.putAll? { default := entry.getD {} } platforms.reverse)
  Reader.drop
  return settings

def pathReader (table : Reader Settings) : List String → Reader Settings
  | [] => table
  | name :: path => Reader.record [(name, fun _ => pathReader table path)] {}

def ofText (text : Text) : Except Problem Settings :=
  Reader.run (pathReader (tableReader path) path) text

end Settings

end SchemaHighlighter
