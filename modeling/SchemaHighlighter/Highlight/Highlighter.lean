import SchemaHighlighter.Highlight.Scan
import SchemaHighlighter.Loading.Handle

/-!
# The highlighter

Requests for tokens, served by the engine of a handle. A request for which no engine can be had
gets no tokens.
-/
namespace SchemaHighlighter

structure Highlighter (κ σ : Type) where
  isWord : Char → Bool
  engine : Engine σ
  load : Loader κ σ

/-- A request: the text, and the range to which it is confined if there is one. -/
structure TokenRequest where
  text : Text
  range : Option Range := none
  deriving DecidableEq, Repr

/-- A request with its cancellation: whether it was cancelled before the engine is there, and
whether it is during the scan. -/
structure Submission (σ : Type) where
  request : TokenRequest
  cancelled : Bool := false
  poll : Machine σ → Bool := fun _ => false

structure Highlighted (κ σ : Type) where
  tokens : List Token
  log : List LogEvent
  handle : Handle κ σ

namespace Highlighter

variable {κ σ : Type}

def scan (h : Highlighter κ σ) (poll : Machine σ → Bool) (r : TokenRequest) (m : Machine σ) :
    Scan σ :=
  match r.range with
  | some range => h.engine.scan poll r.text range m
  | none => h.engine.scanAll poll r.text m

def tokens (h : Highlighter κ σ) (handle : Handle κ σ) (r : Submission σ) : Highlighted κ σ :=
  let served := handle.withEngine h.load r.cancelled fun m =>
    let s := h.scan r.poll r.request m
    ((s.tokens h.isWord, s.log), s.machine)
  match served with
  | ⟨.ok (tokens, log), loadLog, handle⟩ => ⟨tokens, loadLog ++ log, handle⟩
  | ⟨.error _, loadLog, handle⟩ => ⟨[], loadLog, handle⟩

def serve (h : Highlighter κ σ) (handle : Handle κ σ) :
    List (Submission σ) → List (Highlighted κ σ)
  | [] => []
  | r :: rest =>
    let served := h.tokens handle r
    served :: h.serve served.handle rest

def describe (loaded : Option Bool) : String :=
  "Highlighter \x7b engine: " ++ Handle.describe loaded ++ " \x7d"

end Highlighter

end SchemaHighlighter
