import SchemaHighlighter.Engine.Recording
import SchemaHighlighter.Proofs.Highlight.Cases

/-! # Engines that do the same

One engine follows another if a map takes the states of the second to those of the first and every
operation does the same on both sides of it. Then so do the attempts at a statement. A record is
such a state: an engine does the same without it, and on top of any earlier one. -/
namespace SchemaHighlighter

variable {σ τ α β : Type}

def Machine.map (g : σ → τ) (m : Machine σ) : Machine τ := ⟨m.memory, g m.control⟩

namespace Action

/-- Work that comes to the same on both sides of a map. -/
def Follows (g : σ → τ) (x : Action σ α) (x' : Action τ α) : Prop :=
  ∀ m, x' (m.map g) = ((x m).1, (x m).2.map g)

variable {g : σ → τ}

theorem follows_change (f : Memory.Change) :
    Follows g (change f : Action σ Unit) (change f : Action τ Unit) := by
  intro m
  simp only [change, Machine.map]
  split <;> rfl

theorem follows_read (f : Memory → Except AccessError α) :
    Follows g (read f : Action σ α) (read f : Action τ α) := by
  intro m
  simp only [read, Machine.map]
  split <;> rfl

theorem follows_pure (a : α) : Follows g (pure a : Action σ α) (pure a : Action τ α) :=
  fun _ => rfl

theorem Follows.bind {γ : Type} {x : Action σ α} {x' : Action τ α} {f : α → Action σ γ}
    {f' : α → Action τ γ} (first : Follows g x x') (second : ∀ a, Follows g (f a) (f' a)) :
    Follows g (x >>= f) (x' >>= f') := by
  intro m
  rw [bind_run, bind_run, first m]
  rcases x m with ⟨error | a, m₁⟩
  · rfl
  · exact second a m₁

end Action

namespace Engine

structure Follows (g : σ → τ) (e : Engine σ) (e' : Engine τ) : Prop where
  save : ∀ m, e'.save (m.map g) = ((e.save m).1, (e.save m).2.map g)
  alloc : ∀ n, Action.Follows g (e.alloc n) (e'.alloc n)
  restore : ∀ marker m, e'.restore marker (m.map g) = (e.restore marker m).map g
  parse : ∀ call, Action.Follows g (e.parse call) (e'.parse call)

variable {g : σ → τ} {e : Engine σ} {e' : Engine τ}

theorem Follows.marshal (h : Follows g e e') (text : Text) :
    Action.Follows g (e.marshal text) (e'.marshal text) := by
  unfold Engine.marshal
  refine (h.alloc _).bind ?_
  intro input
  refine (Action.follows_change _).bind ?_
  intro _
  refine (Action.follows_read _).bind ?_
  intro terminator
  refine (Action.follows_change _).bind ?_
  intro _
  refine (h.alloc _).bind ?_
  intro status
  refine (Action.follows_change _).bind ?_
  intro _
  refine (h.alloc _).bind ?_
  intro statement
  refine (Action.follows_change _).bind ?_
  intro _
  exact Action.follows_pure _

theorem Follows.parseStatement (h : Follows g e e') (text : Text) :
    Action.Follows g (e.parseStatement text) (e'.parseStatement text) := by
  intro m
  by_cases long : 0x100000000 ≤ Text.byteLength text + 1
  · simp only [Engine.parseStatement, if_pos long]
  · have body : Action.Follows g
        (do let call ← e.marshal text
            let raw ← e.parse call
            Action.read (readAnswer call raw))
        (do let call ← e'.marshal text
            let raw ← e'.parse call
            Action.read (readAnswer call raw)) := by
      refine (h.marshal text).bind ?_
      intro call
      refine (h.parse call).bind ?_
      intro raw
      exact Action.follows_read _
    simp only [Engine.parseStatement, if_neg long, inScratch, h.save, body _, h.restore]

end Engine

/-- The attempts with the states taken along a map. -/
def Windowed.map (g : σ → τ) (w : Windowed σ) : Windowed τ :=
  ⟨w.attempts, w.outcome, w.window, w.machine.map g⟩

namespace Engine

section

variable {g : σ → τ} {e : Engine σ} {e' : Engine τ}

theorem Follows.parseWithin (h : Follows g e e') (rest : Text) (limit : Option Nat)
    (window : Window) (m : Machine σ) :
    e'.parseWithin rest limit window (m.map g) = (e.parseWithin rest limit window m).map g := by
  induction limit, window, m using parseWithin_induct e rest with
  | last limit window m outcome m' run final =>
    have run' := h.parseStatement (shown rest limit window) m
    rw [run] at run'
    rw [parseWithin_of_final run final, parseWithin_of_final run' final]
    rfl
  | longer limit window m result m' run cut ih =>
    have run' := h.parseStatement (shown rest limit window) m
    rw [run] at run'
    rw [parseWithin_of_cut run cut, parseWithin_of_cut run' cut, ih]
    rfl
  | shorter limit window m requested available m' fits run long ih =>
    have run' := h.parseStatement (shown rest limit window) m
    rw [run] at run'
    rw [parseWithin_of_overflow run long, parseWithin_of_overflow run' long]
    dsimp only
    rw [ih]
    rfl

theorem Follows.parseWindowed (h : Follows g e e') (rest : Text) (window : Window)
    (m : Machine σ) :
    e'.parseWindowed rest window (m.map g) = (e.parseWindowed rest window m).map g :=
  h.parseWithin rest none window m

end

variable (e : Engine σ) (probe : ParseCall → Memory → β)

/-- An engine does without a record what it does with one. -/
theorem follows_inner : Follows Recorded.inner (e.recording probe) e :=
  ⟨fun _ => rfl, fun _ _ => rfl, fun _ _ => rfl, fun _ _ => rfl⟩

/-- What a recorded engine does and notes is no matter of the record that there is. -/
theorem follows_events (earlier : List (Event β)) :
    Follows (fun r => { r with events := r.events ++ earlier })
      (e.recording probe) (e.recording probe) :=
  ⟨fun _ => rfl, fun _ _ => rfl, fun _ _ => rfl, fun _ _ => rfl⟩

end Engine

end SchemaHighlighter
