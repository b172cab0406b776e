import SchemaHighlighter.Json.Value
import SchemaHighlighter.Text.Basic

/-!
# Reading JSON from left to right

A reader takes a part off the front of a text, or finds the first thing that is wrong: that the
text ends too soon, that it is not JSON, or that it is not the JSON that was expected. A value
can be read, with all that it holds, or skipped, when neither the size of its numbers nor the
pairing of its surrogates matters.
-/
namespace SchemaHighlighter.Json

inductive Problem where
  | endOfText
  | malformed
  | mismatch
  deriving DecidableEq, Repr

/-- A reader knows a number that no count of steps on the text exceeds. -/
abbrev Reader (α : Type) := ReaderT Nat (StateT Text (Except Problem)) α

namespace Reader

variable {α β : Type}

def peek : Reader (Option Char) := do return (← get).head?

def next : Reader Char := do
  match ← get with
  | [] => throw .endOfText
  | c :: rest =>
    set rest
    return c

/-- Takes off a character that is known to be there. -/
def drop : Reader Unit := modify List.tail

def takeWhile (p : Char → Bool) : Reader Text := do
  let text ← get
  set (text.dropWhile p)
  return text.takeWhile p

def isSpace (c : Char) : Bool := c = ' ' || c = '\n' || c = '\t' || c = '\r'

/-- The next character that is not a space, still on the text. -/
def token? : Reader (Option Char) := do
  let _ ← takeWhile isSpace
  peek

def token : Reader Char := do
  match ← token? with
  | none => throw .endOfText
  | some c => return c

/-- Takes a step again and again, until it has nothing more to do. The steps know which of them is
the first. Each must take something off the text, so that there is a bound on their number. -/
def repeatFrom (step : Bool → β → Reader (Option β)) : Nat → Bool → β → Reader β
  | 0, _, _ => throw .endOfText
  | fuel + 1, first, b => do
    match ← step first b with
    | none => return b
    | some b => repeatFrom step fuel false b

def repeating (step : Bool → β → Reader (Option β)) (start : β) : Reader β := do
  repeatFrom step (← read) true start

/-! ## Literals -/

/-- The rest of a word such as `null`. -/
def literal (rest : String) : Reader Unit :=
  rest.toList.forM fun expected => do
    if (← next) ≠ expected then throw .malformed

/-! ## Strings -/

def hexValue? (c : Char) : Option Nat :=
  if c.isDigit then some (c.toNat - '0'.toNat)
  else if 'a' ≤ c ∧ c ≤ 'f' then some (c.toNat - 'a'.toNat + 10)
  else if 'A' ≤ c ∧ c ≤ 'F' then some (c.toNat - 'A'.toNat + 10)
  else none

/-- Four hexadecimal digits. Fewer bytes than four are the end of the text, whatever they are. -/
def hexUnit : Reader Nat := do
  let text ← get
  if Text.byteLength (text.take 4) < 4 then throw .endOfText
  match (text.take 4).mapM hexValue? with
  | none => throw .malformed
  | some digits =>
    set (text.drop 4)
    return digits.foldl (16 * · + ·) 0

def isHighSurrogate (unit : Nat) : Bool := 0xD800 ≤ unit && unit ≤ 0xDBFF

def isLowSurrogate (unit : Nat) : Bool := 0xDC00 ≤ unit && unit ≤ 0xDFFF

/-- A character given by its code units. A high surrogate needs a low one after it. -/
def unicodeEscape : Reader Char := do
  let unit ← hexUnit
  if isLowSurrogate unit then throw .malformed
  if !isHighSurrogate unit then return Char.ofNat unit
  for expected in ['\\', 'u'] do
    if (← next) ≠ expected then throw .malformed
  let second ← hexUnit
  if !isLowSurrogate second then throw .malformed
  return Char.ofNat (0x10000 + (unit - 0xD800) * 0x400 + (second - 0xDC00))

/-- What a letter after a backslash stands for, but for `u`. -/
def simpleEscape? : Char → Option Char
  | '"' => some '"'
  | '\\' => some '\\'
  | '/' => some '/'
  | 'b' => some '\x08'
  | 'f' => some '\x0c'
  | 'n' => some '\n'
  | 'r' => some '\r'
  | 't' => some '\t'
  | _ => none

/-- One character of a string, nothing at its closing quote. -/
def stringChar (unicode : Reader Char) : Reader (Option Char) := do
  let c ← next
  if c = '"' then return none
  if c = '\\' then
    let e ← next
    if e = 'u' then return some (← unicode)
    match simpleEscape? e with
    | some c => return some c
    | none => throw .malformed
  if c.toNat < 0x20 then throw .malformed
  return some c

/-- A string after its opening quote. -/
def string : Reader String := do
  let reversed ← repeating (fun _ s => do return (← stringChar unicodeEscape).map (· :: s)) []
  return String.ofList reversed.reverse

/-- Passes over a string after its opening quote, and does not ask what its escapes mean. -/
def skipString : Reader Unit :=
  repeating (fun _ _ => do
    return (← stringChar (do let _ ← hexUnit; return ' ')).map fun _ => ()) ()

/-! ## Numbers -/

/-- The nearest number with 53 significant bits; a tie goes to the even one. -/
def round53 (n : Nat) : Nat :=
  let unit := 1 <<< (n.log2 - 52)
  let quotient := n / unit
  let rest := n % unit
  if unit < 2 * rest ∨ unit = 2 * rest ∧ quotient % 2 = 1 then (quotient + 1) * unit
  else quotient * unit

/-- A decimal number: digits, and how many tens to multiply them with. -/
structure Decimal where
  digits : Nat
  exponent : Int
  deriving DecidableEq, Repr

namespace Decimal

def digitValue (c : Char) : Nat := c.toNat - '0'.toNat

/-- Digits before the point. Only as many as fit 64 bits are kept, the rest are counted. -/
def addWhole (d : Decimal) (c : Char) : Decimal :=
  let digits := 10 * d.digits + digitValue c
  if d.exponent = 0 ∧ digits < 1 <<< 64 then ⟨digits, 0⟩ else ⟨d.digits, d.exponent + 1⟩

/-- Digits after the point. From the first that does not fit 64 bits on they are left out. -/
def addFraction (d : Decimal) : Text → Decimal
  | [] => d
  | c :: rest =>
    let digits := 10 * d.digits + digitValue c
    if digits < 1 <<< 64 then addFraction ⟨digits, d.exponent - 1⟩ rest else d

/-- Whether the number is finite when digits and power are each brought to 53 bits and then
multiplied to the nearest number of that kind. -/
def isFinite (d : Decimal) : Bool :=
  d.digits = 0 || d.exponent < 0 ||
    d.exponent ≤ 308 &&
      round53 d.digits * round53 (Nat.pow 10 d.exponent.toNat) < (1 <<< 1024) - (1 <<< 970)

end Decimal

/-- The digits before the point, of which a zero must be the only one. -/
def wholeDigits : Reader Text := do
  let digits ← takeWhile Char.isDigit
  match digits with
  | [] =>
    let _ ← next
    throw .malformed
  | '0' :: _ :: _ => throw .malformed
  | _ => return digits

def fractionDigits : Reader Text := do
  match ← takeWhile Char.isDigit with
  | [] =>
    let _ ← next
    throw .malformed
  | digits => return digits

def exponentValue : Reader Int := do
  let sign ← sign?
  match ← takeWhile Char.isDigit with
  | [] =>
    let _ ← next
    throw .malformed
  | digits =>
    let n := digits.foldl (fun n c => 10 * n + Decimal.digitValue c) 0
    return if sign = some '-' then -(n : Int) else n
where
  sign? : Reader (Option Char) := do
    match ← peek with
    | some '+' => drop; return some '+'
    | some '-' => drop; return some '-'
    | _ => return none

/-- A number after its sign. -/
def decimal : Reader Decimal := do
  let mut d := (← wholeDigits).foldl Decimal.addWhole ⟨0, 0⟩
  if (← peek) = some '.' then
    drop
    d := d.addFraction (← fractionDigits)
  match ← peek with
  | some 'e' | some 'E' =>
    drop
    let exponent ← exponentValue
    return { d with exponent := d.exponent + exponent }
  | _ => return d

/-- A number after its sign, which must be finite. -/
def number : Reader Unit := do
  if !(← decimal).isFinite then throw .malformed

/-- Passes over a number after its sign. One that breaks off is malformed, even at the end. -/
def skipNumber : Reader Unit := fun bound text =>
  match decimal bound text with
  | .ok (_, rest) => .ok ((), rest)
  | .error _ => .error .malformed

/-! ## Arrays and objects -/

/-- Whether there is one more item before the closing bracket, which stays on the text. -/
def hasItem (closing : Char) (first : Bool) : Reader Bool := do
  let c ← token
  if c = closing then return false
  if first then return true
  if c ≠ ',' then throw .malformed
  drop
  if (← token) = closing then throw .malformed
  return true

/-- Whether there is one more element in an array. -/
def hasElement (first : Bool) : Reader Bool := hasItem ']' first

/-- Whether there is one more member in an object. If so its opening quote is taken off. -/
def hasMember (first : Bool) : Reader Bool := do
  if !(← hasItem '}' first) then return false
  if (← token) ≠ '"' then throw .malformed
  drop
  return true

def colon : Reader Unit := do
  if (← token) ≠ ':' then throw .malformed
  drop

/-- The closing bracket of an array that must hold no more elements. What comes after a comma
is not looked at. -/
def endArray : Reader Unit := do
  if (← token) ≠ ']' then throw .malformed
  drop

/-! ## Values -/

/-- How many brackets may be open at once in a value that is read. -/
def nesting : Nat := 127

/-- Reads a value, in which as many brackets may be open at once as there are levels. -/
def value (levels : Nat) : Reader JsonValue := do
  let c ← token
  match levels, c with
  | _, 'n' => drop; literal "ull"; return .null
  | _, 't' => drop; literal "rue"; return .bool true
  | _, 'f' => drop; literal "alse"; return .bool false
  | _, '"' => drop; return .string (← string)
  | _, '-' => drop; number; return .number
  | levels + 1, '[' =>
    drop
    let items ← repeating (fun first items => do
      if !(← hasElement first) then return none
      return some ((← value levels) :: items)) []
    drop
    return .array items.reverse
  | levels + 1, '{' =>
    drop
    let members ← repeating (fun first members => do
      if !(← hasMember first) then return none
      let key ← string
      colon
      return some ((key, ← value levels) :: members)) []
    drop
    return .object members.reverse
  | _, _ => if c.isDigit then number; return .number else throw .malformed

/-- Passes over a value; `fuel` bounds how many brackets are open at once. -/
def skipFrom : Nat → Reader Unit
  | 0 => throw .endOfText
  | fuel + 1 => do
    let c ← token
    match c with
    | 'n' => drop; literal "ull"
    | 't' => drop; literal "rue"
    | 'f' => drop; literal "alse"
    | '"' => drop; skipString
    | '-' => drop; skipNumber
    | '[' =>
      drop
      repeating (fun first _ => do
        if !(← hasElement first) then return none
        skipFrom fuel
        return some ()) ()
      drop
    | '{' =>
      drop
      repeating (fun first _ => do
        if !(← hasMember first) then return none
        skipString
        colon
        skipFrom fuel
        return some ()) ()
      drop
    | c => if c.isDigit then skipNumber else throw .malformed

def skip : Reader Unit := do skipFrom (← read)

/-- Finds that the next value is not of the kind that was expected. A value other than an array or
an object is read first, and may itself be at fault. -/
def unexpected : Reader α := do
  let c ← token
  if c ≠ '[' ∧ c ≠ '{' then
    let _ ← value 0
  throw .mismatch

/-- Reads a record: an object with the given fields, each at most once, among members that are
passed over, or an array of the fields in order. Each field has its part in the result. -/
def record (fields : List (String × (α → Reader α))) (start : α) : Reader α := do
  match ← token with
  | '{' =>
    drop
    let (a, _) ← repeating (fun first (a, seen) => do
      if !(← hasMember first) then return none
      let key ← string
      match fields.lookup key with
      | none =>
        colon
        skip
        return some (a, seen)
      | some read =>
        if key ∈ seen then throw .mismatch
        colon
        return some (← read a, key :: seen)) (start, [])
    drop
    return a
  | '[' =>
    drop
    let a ← inOrder fields true start
    endArray
    return a
  | _ => unexpected
where
  inOrder : List (String × (α → Reader α)) → Bool → α → Reader α
    | [], _, a => return a
    | (_, read) :: rest, first, a => do
      if !(← hasElement first) then return a
      inOrder rest false (← read a)

def quoted : Reader String := do
  if (← token) = '"' then
    drop
    string
  else unexpected

def strings : Reader (List String) := do
  if (← token) = '[' then
    drop
    let items ← repeating (fun first items => do
      if !(← hasElement first) then return none
      return some ((← quoted) :: items)) []
    drop
    return items.reverse
  else unexpected

def optional (read : Reader α) : Reader (Option α) := do
  if (← token?) = some 'n' then
    drop
    literal "ull"
    return none
  return some (← read)

/-- Runs a reader on a whole text, after which only spaces may come. -/
def run (reader : Reader α) (text : Text) : Except Problem α :=
  match reader (text.length + 1) text with
  | .error p => .error p
  | .ok (a, rest) => if rest.all isSpace then .ok a else .error .malformed

end Reader

end SchemaHighlighter.Json
