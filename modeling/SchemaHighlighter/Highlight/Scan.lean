import SchemaHighlighter.Highlight.Window
import SchemaHighlighter.Highlight.Token

/-!
# Scanning a range of a text

A scan parses statement after statement from the start of the range. A cursor keeps the
position, an offset the byte, and both move past exactly what the engine says the statement
took. The scan ends with the range, at the first status that is not resumable, at an error,
when a statement takes nothing, or when it is asked to stop between two statements. The tokens
are those of the statements before the end.
-/
namespace SchemaHighlighter

/-- One statement that the scan went past. -/
structure Step where
  offset : Nat
  cursor : Position
  /-- The text that the statement took. -/
  source : Text
  result : ParseResult
  attempts : List Attempt
  deriving Repr

def Step.tokens (isWord : Char → Bool) (s : Step) : List Token :=
  match s.result.statement with
  | none => []
  | some statement => statement.tokens isWord s.cursor s.source

/-- Why a scan ended. -/
inductive Stop where
  | endOfRange
  | cancelled
  | failed (error : EngineError) (attempts : List Attempt)
  | terminal (status : Status) (attempts : List Attempt)
  | noProgress (attempts : List Attempt)
  deriving Repr

namespace Stop

/-- The attempts at the statement that the scan ended with. -/
def attempts : Stop → List Attempt
  | endOfRange | cancelled => []
  | failed _ attempts | terminal _ attempts | noProgress attempts => attempts

def log : Stop → List LogEvent
  | failed error attempts => attempts.flatMap Attempt.log ++ [.parseFailed error]
  | stop => stop.attempts.flatMap Attempt.log

end Stop

/-- A scan that is over, with the byte and the position that it reached. -/
structure Scan (σ : Type) where
  steps : List Step
  stop : Stop
  offset : Nat
  cursor : Position
  machine : Machine σ

namespace Scan

variable {σ : Type}

def tokens (isWord : Char → Bool) (s : Scan σ) : List Token := s.steps.flatMap (Step.tokens isWord)

/-- Every attempt of the scan, in order. -/
def attempts (s : Scan σ) : List Attempt :=
  s.steps.flatMap Step.attempts ++ s.stop.attempts

def log (s : Scan σ) : List LogEvent :=
  s.steps.flatMap (fun step => step.attempts.flatMap Attempt.log) ++ s.stop.log

end Scan

namespace Engine

variable {σ : Type}

/-- Scans `rest`, which begins at byte `offset` and, for the reader, at `cursor`. Whether to
stop is asked before each statement. -/
def scanFrom (e : Engine σ) (cancelled : Machine σ → Bool) (window : Window) (offset : Nat)
    (cursor : Position) (rest : Text) (m : Machine σ) : Scan σ :=
  let ended (stop : Stop) (m : Machine σ) : Scan σ := ⟨[], stop, offset, cursor, m⟩
  if rest = [] then ended .endOfRange m
  else if cancelled m then ended .cancelled m
  else
    match e.parseWindowed rest window m with
    | ⟨attempts, .error error, _, m⟩ => ended (.failed error attempts) m
    | ⟨attempts, .ok result, window, m⟩ =>
      if result.status.code.isTerminal then ended (.terminal result.status attempts) m
      else
        let source := Text.takeBytes result.consumed rest
        if source = [] then ended (.noProgress attempts) m
        else
          let next := scanFrom e cancelled window (offset + Text.byteLength source)
            (cursor.walk source) (rest.drop source.length) m
          { next with steps := ⟨offset, cursor, source, result, attempts⟩ :: next.steps }
termination_by rest.length
decreasing_by
  have nonempty : 0 < rest.length := List.length_pos_iff.2 ‹_›
  have moved : 0 < (Text.takeBytes result.consumed rest).length := List.length_pos_iff.2 ‹_›
  simp only [List.length_drop]
  omega

/-- Scans a range of `text`. The offsets of its ends are cut back to the text, but the cursor
begins at the start as it was asked for. -/
def scan (e : Engine σ) (cancelled : Machine σ → Bool) (text : Text) (range : Range)
    (m : Machine σ) : Scan σ :=
  let stop := Text.offset text range.stop
  let start := min (Text.offset text range.start) stop
  if range.isEmpty then ⟨[], .endOfRange, start, range.start, m⟩
  else
    let rest := Text.dropBytes start (Text.takeBytes stop text)
    e.scanFrom cancelled .initial start range.start rest m

/-- The range from the first character of a text to its last. -/
def wholeRange (text : Text) : Range := ⟨{}, Text.endPosition text⟩

def scanAll (e : Engine σ) (cancelled : Machine σ → Bool) (text : Text) (m : Machine σ) : Scan σ :=
  e.scan cancelled text (wholeRange text) m

end Engine

end SchemaHighlighter
