/-!
# JSON values

The members of an object stay in the order in which they were written, and a name may come
more than once. What a number is does not matter here, only that it is one.
-/
namespace SchemaHighlighter

inductive JsonValue where
  | null
  | bool (b : Bool)
  | number
  | string (s : String)
  | array (items : List JsonValue)
  | object (members : List (String × JsonValue))
  deriving Repr, Inhabited

namespace JsonValue

def valuesOf (name : String) (members : List (String × JsonValue)) : List JsonValue :=
  members.filterMap fun (key, value) => if key = name then some value else none

/-- The value under a name that may come once or not at all. -/
def member? (name : String) (members : List (String × JsonValue)) : Option (Option JsonValue) :=
  match valuesOf name members with
  | [] => some none
  | [value] => some (some value)
  | _ => none

/-- The named fields of a record. A record is an object, where no field may come twice and other
members do not count, or an array of the fields in order, of which the last may be left out. -/
def fields? (names : List String) : JsonValue → Option (List (Option JsonValue))
  | object members => names.mapM (member? · members)
  | array items =>
    if items.length ≤ names.length then
      some (items.map some ++ List.replicate (names.length - items.length) none)
    else none
  | _ => none

def string? : JsonValue → Option String
  | string s => some s
  | _ => none

def strings? : JsonValue → Option (List String)
  | array items => items.mapM string?
  | _ => none

/-- A field that may be left out or null. -/
def optional? {α : Type} (read : JsonValue → Option α) : Option JsonValue → Option (Option α)
  | none | some null => some none
  | some value => some <$> read value

end JsonValue

end SchemaHighlighter
