import SchemaHighlighter.Engine.Basic
import SchemaHighlighter.Log

/-!
# The engine handle

A handle holds the engine that all requests share. The first request loads it, a load that
fails leaves the handle empty for the next request to try again, and once loaded the engine
stays. Each request finds the engine as the request before left it.
-/
namespace SchemaHighlighter

/-- A way to come by an engine, told whether the request for it has been cancelled. What it
loads from is its own affair. -/
abbrev Loader (κ σ : Type) := Bool → κ → Except EngineError (Machine σ) × κ

structure Handle (κ σ : Type) where
  engine : Option (Machine σ) := none
  source : κ

/-- What a request came to: its outcome, the log of loading and the handle afterwards. -/
structure Served (κ σ α : Type) where
  outcome : Except EngineError α
  log : List LogEvent
  handle : Handle κ σ

/-- A request for the engine: whether it has been cancelled, and what is to be done. -/
structure EngineRequest (σ α : Type) where
  cancelled : Bool := false
  work : Machine σ → α × Machine σ

/-- A load that was cancelled is not worth a log line. -/
def loadLog : EngineError → List LogEvent
  | .cancelled => []
  | error => [.loadFailed error]

namespace Handle

variable {κ σ α : Type}

def isLoaded (h : Handle κ σ) : Bool := h.engine.isSome

/-- Does something to the engine, which is loaded first if need be. -/
def withEngine (h : Handle κ σ) (load : Loader κ σ) (cancelled : Bool)
    (f : Machine σ → α × Machine σ) : Served κ σ α :=
  match h with
  | ⟨some m, source⟩ =>
    let (a, m) := f m
    ⟨.ok a, [], ⟨some m, source⟩⟩
  | ⟨none, source⟩ =>
    match load cancelled source with
    | (.ok m, source) =>
      let (a, m) := f m
      ⟨.ok a, [], ⟨some m, source⟩⟩
    | (.error e, source) => ⟨.error e, loadLog e, ⟨none, source⟩⟩

/-- Serves requests one after another, each with the handle that the one before left. -/
def serve (h : Handle κ σ) (load : Loader κ σ) : List (EngineRequest σ α) → List (Served κ σ α)
  | [] => []
  | r :: rest =>
    let served := h.withEngine load r.cancelled r.work
    served :: served.handle.serve load rest

/-- The handle in words. Whether it is loaded is not known while a request has the engine. -/
def describe (loaded : Option Bool) : String :=
  let state := match loaded with
    | none => "None"
    | some b => s!"Some({b})"
  "EngineHandle \x7b loaded: " ++ state ++ " \x7d"

end Handle

/-! ## Loading with outcomes of one's choice

A loader whose attempts fail or succeed as a list says. The last entry of the list serves all
further attempts. -/

structure Trial where
  /-- The errors of the attempts, none where an attempt succeeds. -/
  outcomes : List (Option EngineError)
  /-- Whether the loader looks at the request's cancellation before anything else. -/
  observes : Bool := false
  attempts : Nat := 0
  deriving DecidableEq, Repr

def Trial.next (t : Trial) : Option EngineError :=
  (t.outcomes[t.attempts]?.or t.outcomes.getLast?).getD none

/-- Loads the given machine when the trial lets the attempt succeed. -/
def Trial.loader {σ : Type} (machine : Machine σ) : Loader Trial σ := fun cancelled t =>
  let after := { t with attempts := t.attempts + 1 }
  if t.observes && cancelled then (.error .cancelled, after)
  else match t.next with
    | some e => (.error e, after)
    | none => (.ok machine, after)

end SchemaHighlighter
