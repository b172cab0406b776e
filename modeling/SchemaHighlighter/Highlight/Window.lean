import SchemaHighlighter.Engine.Parse

/-!
# Parsing through a window

The engine is handed the beginning of the text only, as much as a window holds. A statement that
the window cut short is tried again with a window of twice the size, an input that overflows
the scratch stack with at most half of it, and after that never with more. The attempts are
kept in the order in which they were made.
-/
namespace SchemaHighlighter

/-- The size in bytes of the longest input to hand over. It never falls below 32, so that the
first character always fits. -/
structure Window where
  size : Nat
  floor_le : 32 ≤ size
  deriving DecidableEq, Repr

namespace Window

/-- What a scan begins with. -/
def initial : Window := ⟨4096, by decide⟩

def double (w : Window) : Window := ⟨2 * w.size, by have := w.floor_le; omega⟩

/-- The window cut down to `limit` bytes. -/
def cap (w : Window) (limit : Nat) (h : 32 ≤ limit) : Window :=
  ⟨min w.size limit, Nat.le_min.2 ⟨w.floor_le, h⟩⟩

/-- How many bytes the window holds below a limit, if there is one. -/
def within (w : Window) : Option Nat → Nat
  | none => w.size
  | some limit => min w.size limit

/-- Whether a larger window would hold more. -/
def canGrow (w : Window) : Option Nat → Bool
  | none => true
  | some limit => w.size < limit

/-- An input of this many bytes is short enough for an overflow to be final. -/
def smallest : Nat := 64

end Window

/-- One call of the parser: how many bytes it was handed and what became of them. -/
structure Attempt where
  length : Nat
  outcome : Except EngineError ParseResult
  deriving Repr

/-- What the call reported. -/
def Attempt.log (a : Attempt) : List LogEvent :=
  match a.outcome with
  | .ok r => r.log
  | .error _ => []

/-- What the attempts at one statement came to. -/
structure Windowed (σ : Type) where
  attempts : List Attempt
  outcome : Except EngineError ParseResult
  window : Window
  machine : Machine σ

namespace Engine

variable {σ : Type}

/-- Parses the first statement of `rest`. There is a limit once an input has overflowed. -/
def parseWithin (e : Engine σ) (rest : Text) (limit : Option Nat) (window : Window)
    (m : Machine σ) : Windowed σ :=
  let input := Text.takeBytes (window.within limit) rest
  let length := Text.byteLength input
  match e.parseStatement input m with
  | (.ok result, m) =>
    if grow : result.status.code.needsMoreInput = true ∧ window.canGrow limit = true ∧
        rest.drop input.length ≠ [] then
      let next := parseWithin e rest limit window.double m
      { next with attempts := ⟨length, .ok result⟩ :: next.attempts }
    else ⟨[⟨length, .ok result⟩], .ok result, window, m⟩
  | (.error (.stackOverflow requested available), m) =>
    let error := EngineError.stackOverflow requested available
    if shrink : Window.smallest < length then
      let next := parseWithin e rest (some (length / 2))
        (window.cap (length / 2) (by simp only [Window.smallest] at shrink; omega)) m
      { next with attempts := ⟨length, .error error⟩ :: next.attempts }
    else ⟨[⟨length, .error error⟩], .error error, window, m⟩
  | (.error error, m) => ⟨[⟨length, .error error⟩], .error error, window, m⟩
termination_by 2 * limit.getD (Text.byteLength rest) -
  min window.size (limit.getD (Text.byteLength rest))
decreasing_by
  · have := window.floor_le
    cases limit with
    | none =>
      have cut := Text.lt_byteLength_of_drop_ne_nil grow.2.2
      simp only [Window.double, Window.within, Option.getD_none] at cut ⊢
      omega
    | some limit =>
      have below := grow.2.1
      simp only [Window.canGrow, decide_eq_true_eq] at below
      simp only [Window.double, Option.getD_some]
      omega
  · have fits := Text.byteLength_takeBytes_le (window.within limit) rest
    have part := Text.byteLength_takeBytes_le_byteLength (window.within limit) rest
    have long : 64 < Text.byteLength (Text.takeBytes (window.within limit) rest) := shrink
    cases limit <;> simp only [Window.within] at fits part long <;>
      simp only [Window.cap, Window.within, Option.getD_none, Option.getD_some] <;> omega

/-- Parses the first statement of `rest`, beginning with a window of the given size. -/
def parseWindowed (e : Engine σ) (rest : Text) (window : Window) (m : Machine σ) : Windowed σ :=
  e.parseWithin rest none window m

end Engine

end SchemaHighlighter
