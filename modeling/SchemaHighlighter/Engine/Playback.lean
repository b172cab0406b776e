import SchemaHighlighter.Engine.Linear

/-!
# An engine that plays back a list of calls

Each entry of the list says what one call does, or several calls in turn: what it demands of
the input, what it writes and where, and what it answers. Nothing is parsed.
-/
namespace SchemaHighlighter.Playback

inductive Word where
  | value (n : Int)
  /-- The address this many bytes after the start of the input. -/
  | relative (n : Int)
  deriving DecidableEq, Repr

def Word.resolve (input : Nat) : Word → Int
  | value n => n
  | relative n => input + n

structure Draft where
  id : Word := .value 0
  kind : Word
  payload : List Word := []
  deriving DecidableEq, Repr

structure Entry where
  /-- A longer input overflows the scratch stack. -/
  longest : Option Nat := none
  /-- A shorter input is answered with `shortCode`, and the entry stays. -/
  shortest : Option Nat := none
  shortCode : Int := 4
  /-- How many calls the entry serves. -/
  times : Nat := 1
  cancels : Bool := false
  alloc : Option Nat := none
  failure : Option EngineError := none
  status : List Word := []
  statement : Option Draft := none
  /-- Bytes to write at further addresses. -/
  pokes : List (Word × List UInt8) := []
  count : Int := 0
  deriving DecidableEq, Repr

structure State where
  entries : List Entry
  /-- How many calls the first entry has served. -/
  uses : Nat := 0
  deriving DecidableEq, Repr

/-- The state after the first entry has served one call more. -/
def State.use (s : State) : State :=
  match s.entries with
  | [] => s
  | entry :: rest =>
    if entry.times ≤ s.uses + 1 then { entries := rest } else { s with uses := s.uses + 1 }

def putWords (call : ParseCall) (offset : Nat) (words : List Word) : Action (Linear State) Unit :=
  Linear.put offset ((words.map (Word.resolve call.input)).flatMap bytesOfWord)

/-- What an entry does in a call that it serves. -/
def Entry.play (entry : Entry) (call : ParseCall) : Action (Linear State) Int := do
  if let some n := entry.alloc then
    let _ ← Linear.alloc n
  if let some e := entry.failure then
    Action.fail e
  putWords call call.status entry.status
  if let some d := entry.statement then
    putWords call call.statement (d.id :: d.kind :: d.payload)
  entry.pokes.forM fun (word, bytes) => Linear.put (word.resolve call.input).toNat bytes
  return entry.count

def engine : Engine (Linear State) := .linear fun call ⟨memory, control⟩ =>
  match control.own.entries with
  | [] => (.error (.trap "no more calls"), ⟨memory, control⟩)
  | entry :: _ =>
    if entry.longest.any (· < call.length) then
      (.error (.stackOverflow call.length 0), ⟨memory, control⟩)
    else if entry.shortest.any (call.length < ·) then
      (do putWords call call.status [.value entry.shortCode]; return 0) ⟨memory, control⟩
    else
      entry.play call
        ⟨memory, { control with
          cancelled := control.cancelled || entry.cancels, own := control.own.use }⟩

end SchemaHighlighter.Playback
