import SchemaHighlighter.Engine.Linear
import SchemaHighlighter.Engine.Parse
import SchemaHighlighter.Engine.Recording

/-! # Scratch space is released

What one call asks of an engine, told by the record that a recorded engine keeps of it. The
engine may fail at any step and may move its pointer as it likes: nothing is promised of the
pointer between a save and the restore of what was saved. -/
namespace SchemaHighlighter

variable {β σ α : Type}

namespace Action

variable {γ : Type} {m m' : Machine σ}

theorem bind_eq_ok {x : Action σ α} {f : α → Action σ γ} {c : γ}
    (h : (x >>= f) m = (.ok c, m')) : ∃ a m₁, x m = (.ok a, m₁) ∧ f a m₁ = (.ok c, m') := by
  rw [bind_run] at h
  rcases run : x m with ⟨error | a, m₁⟩
  · rw [run] at h
    cases h
  · rw [run] at h
    exact ⟨a, m₁, rfl, h⟩

theorem bind_read_eq_ok {f : Memory → Except AccessError α} {g : α → Action σ γ} {c : γ}
    (h : (read f >>= g) m = (.ok c, m')) :
    ∃ a, f m.memory = .ok a ∧ g a m = (.ok c, m') := by
  rw [bind_run, read] at h
  rcases found : f m.memory with error | a
  · rw [found] at h
    cases h
  · rw [found] at h
    exact ⟨a, rfl, h⟩

end Action

namespace Recorded

/-- A recorded machine with the machine inside and the record as given. -/
def holding (events : List (Event β)) (m : Machine σ) : Machine (Recorded β σ) :=
  ⟨m.memory, { inner := m.control, events }⟩

theorem change_holding (f : Memory.Change) (events : List (Event β)) (m : Machine σ) :
    Action.change f (holding events m) =
      ((Action.change f m).1, holding events (Action.change f m).2) := by
  simp only [Action.change, holding]
  split <;> rfl

theorem read_holding (f : Memory → Except AccessError α) (events : List (Event β))
    (m : Machine σ) :
    Action.read f (holding events m) =
      ((Action.read f m).1, holding events (Action.read f m).2) := by
  simp only [Action.read, holding]
  split <;> rfl

end Recorded

def Event.IsAllocation : Event β → Prop
  | .allocated .. => True
  | .saved | .restored _ | .called .. => False

/-- The allocations for a call, the latest first. -/
def ParseCall.allocations (call : ParseCall) : List (Event β) :=
  [.allocated Statement.recordSize (some call.statement),
    .allocated Status.recordSize (some call.status),
    .allocated (call.length + 1) (some call.input)]

namespace Engine

variable {e : Engine σ} {probe : ParseCall → Memory → β} {pointer : Machine σ → Nat}
  {text : Text} {m : Machine σ}

/-- The pointer is what `save` tells and what `restore` sets. -/
structure Keeps (e : Engine σ) (pointer : Machine σ → Nat) : Prop where
  save : ∀ m, (e.save m).1 = pointer m
  restore : ∀ marker m, pointer (e.restore marker m) = marker

theorem keeps_linear {τ : Type} (parse : ParseCall → Action (Linear τ) Int) :
    (linear parse).Keeps fun m => m.control.scratch.pointer :=
  ⟨fun _ => rfl, fun _ _ => rfl⟩

/-- Every step on the way to a call succeeds: three allocations, the input and its terminator
written, both records cleared. -/
inductive Marshalled (e : Engine σ) (text : Text) (m : Machine σ) : ParseCall → Machine σ → Prop
  | intro {input terminator status statement : Nat} {m₁ m₂ m₃ m₄ m₅ m₆ ready : Machine σ}
    (inputRoom : e.alloc (Text.byteLength text + 1) m = (.ok input, m₁))
    (copied : Action.change (Memory.write input (Text.encode text)) m₁ = (.ok (), m₂))
    (near : addressAfter input (Text.byteLength text) = .ok terminator)
    (ended : Action.change (Memory.write terminator [0]) m₂ = (.ok (), m₃))
    (statusRoom : e.alloc Status.recordSize m₃ = (.ok status, m₄))
    (statusClear : Action.change (Memory.fillZero status Status.recordSize) m₄ = (.ok (), m₅))
    (statementRoom : e.alloc Statement.recordSize m₅ = (.ok statement, m₆))
    (statementClear :
      Action.change (Memory.fillZero statement Statement.recordSize) m₆ = (.ok (), ready)) :
    Marshalled e text m { input, length := Text.byteLength text, statement, status } ready

/-- What is asked of the engine within the scope of one call, the latest first. The entry point
is called once everything is laid out; else the record breaks off among the allocations. -/
inductive Asked (e : Engine σ) (probe : ParseCall → Memory → β) (text : Text) (m : Machine σ) :
    List (Event β) → Prop
  | refused {events : List (Event β)} {error : EngineError} {m' : Machine σ}
    (failed : e.marshal text m = (.error error, m')) (few : events.length ≤ 3)
    (only : ∀ event ∈ events, event.IsAllocation) : Asked e probe text m events
  | called {call : ParseCall} {ready : Machine σ} (laid : Marshalled e text m call ready) :
    Asked e probe text m
      (.called call (probe call ready.memory) (e.parse call ready).1.toOption :: call.allocations)

theorem alloc_recording (n : Nat) (events : List (Event β)) :
    (e.recording probe).alloc n (Recorded.holding events m) =
      ((e.alloc n m).1,
        Recorded.holding (.allocated n (e.alloc n m).1.toOption :: events) (e.alloc n m).2) := rfl

theorem parse_recording (call : ParseCall) (events : List (Event β)) :
    (e.recording probe).parse call (Recorded.holding events m) =
      ((e.parse call m).1,
        Recorded.holding (.called call (probe call m.memory) (e.parse call m).1.toOption :: events)
          (e.parse call m).2) := rfl

/-- `x'` does on a recorded engine what `x` does on the engine inside, and notes no more than
`k` allocations by it. -/
def Repeats (k : Nat) (x : Action σ α) (x' : Action (Recorded β σ) α) : Prop :=
  ∀ m events, ∃ asked,
    x' (Recorded.holding events m) = ((x m).1, Recorded.holding (asked ++ events) (x m).2) ∧
      asked.length ≤ k ∧ ∀ event ∈ asked, event.IsAllocation

theorem repeats_alloc (e : Engine σ) (probe : ParseCall → Memory → β) (n : Nat) :
    Repeats 1 (e.alloc n) ((e.recording probe).alloc n) := by
  intro m events
  refine ⟨[_], alloc_recording n events, Nat.le_refl 1, ?_⟩
  intro event member
  rw [List.mem_singleton.1 member]
  trivial

theorem repeats_change (f : Memory.Change) :
    Repeats 0 (Action.change f) (Action.change f : Action (Recorded β σ) Unit) := by
  intro m events
  exact ⟨[], Recorded.change_holding f events m, Nat.le_refl 0, List.forall_mem_nil _⟩

theorem repeats_read (f : Memory → Except AccessError α) :
    Repeats 0 (Action.read f) (Action.read f : Action (Recorded β σ) α) := by
  intro m events
  exact ⟨[], Recorded.read_holding f events m, Nat.le_refl 0, List.forall_mem_nil _⟩

theorem repeats_pure (a : α) :
    Repeats 0 (pure a : Action σ α) (pure a : Action (Recorded β σ) α) := by
  intro m events
  exact ⟨[], rfl, Nat.le_refl 0, List.forall_mem_nil _⟩

theorem Repeats.bind {γ : Type} {k l : Nat} {x : Action σ α} {x' : Action (Recorded β σ) α}
    {f : α → Action σ γ} {f' : α → Action (Recorded β σ) γ} (first : Repeats k x x')
    (second : ∀ a, Repeats l (f a) (f' a)) : Repeats (k + l) (x >>= f) (x' >>= f') := by
  intro m events
  obtain ⟨asked, run, few, only⟩ := first m events
  rw [Action.bind_run, Action.bind_run, run]
  rcases x m with ⟨error | a, m₁⟩
  · exact ⟨asked, rfl, Nat.le_add_right_of_le few, only⟩
  · obtain ⟨asked', run', few', only'⟩ := second a m₁ (asked ++ events)
    refine ⟨asked' ++ asked, ?_, ?_, ?_⟩
    · rw [List.append_assoc]
      exact run'
    · rw [List.length_append]
      omega
    · intro event member
      rcases List.mem_append.1 member with late | early
      · exact only' event late
      · exact only event early

theorem repeats_marshal (e : Engine σ) (probe : ParseCall → Memory → β) (text : Text) :
    Repeats 3 (e.marshal text) ((e.recording probe).marshal text) := by
  unfold marshal
  refine .bind (k := 1) (l := 2) (repeats_alloc e probe _) ?_
  intro input
  refine .bind (k := 0) (l := 2) (repeats_change _) ?_
  intro _
  refine .bind (k := 0) (l := 2) (repeats_read _) ?_
  intro terminator
  refine .bind (k := 0) (l := 2) (repeats_change _) ?_
  intro _
  refine .bind (k := 1) (l := 1) (repeats_alloc e probe _) ?_
  intro status
  refine .bind (k := 0) (l := 1) (repeats_change _) ?_
  intro _
  refine .bind (k := 1) (l := 0) (repeats_alloc e probe _) ?_
  intro statement
  refine .bind (k := 0) (l := 0) (repeats_change _) ?_
  intro _
  exact repeats_pure _

theorem marshalled_of_marshal {call : ParseCall} {ready : Machine σ}
    (h : e.marshal text m = (.ok call, ready)) : Marshalled e text m call ready := by
  unfold marshal at h
  obtain ⟨input, m₁, inputRoom, h⟩ := Action.bind_eq_ok h
  obtain ⟨⟨⟩, m₂, copied, h⟩ := Action.bind_eq_ok h
  obtain ⟨terminator, near, h⟩ := Action.bind_read_eq_ok h
  obtain ⟨⟨⟩, m₃, ended, h⟩ := Action.bind_eq_ok h
  obtain ⟨status, m₄, statusRoom, h⟩ := Action.bind_eq_ok h
  obtain ⟨⟨⟩, m₅, statusClear, h⟩ := Action.bind_eq_ok h
  obtain ⟨statement, m₆, statementRoom, h⟩ := Action.bind_eq_ok h
  obtain ⟨⟨⟩, m₇, statementClear, h⟩ := Action.bind_eq_ok h
  cases h
  exact .intro inputRoom copied near ended statusRoom statusClear statementRoom statementClear

theorem marshal_of_marshalled {call : ParseCall} {ready : Machine σ}
    (h : Marshalled e text m call ready) : e.marshal text m = (.ok call, ready) := by
  cases h with
  | intro inputRoom copied near ended statusRoom statusClear statementRoom statementClear =>
    simp only [marshal, Action.bind_run, Action.read, inputRoom, copied, near, ended, statusRoom,
      statusClear, statementRoom, statementClear]
    rfl

theorem Marshalled.recording {call : ParseCall} {ready : Machine σ}
    (h : Marshalled e text m call ready) (probe : ParseCall → Memory → β)
    (events : List (Event β)) :
    (e.recording probe).marshal text (Recorded.holding events m) =
      (.ok call, Recorded.holding (call.allocations ++ events) ready) := by
  cases h with
  | intro inputRoom copied near ended statusRoom statusClear statementRoom statementClear =>
    simp only [marshal, Action.bind_run, alloc_recording, Recorded.change_holding, Action.read,
      inputRoom, copied, near, ended, statusRoom, statusClear, statementRoom, statementClear]
    rfl

/-- The record of one call is what was asked for it between a save and the restore of what was
saved, and the engine does the same unrecorded. -/
theorem parseStatement_recording (e : Engine σ) (probe : ParseCall → Memory → β)
    (m : Machine σ) (short : Text.byteLength text < 0xFFFFFFFF)
    (events : List (Event β)) :
    ∃ asked, (e.recording probe).parseStatement text (Recorded.holding events m) =
        ((e.parseStatement text m).1,
          Recorded.holding (.restored (e.save m).1 :: asked ++ .saved :: events)
            (e.parseStatement text m).2) ∧
      e.Asked probe text (e.save m).2 asked := by
  have save : (e.recording probe).save (Recorded.holding events m) =
      ((e.save m).1, Recorded.holding (.saved :: events) (e.save m).2) := rfl
  have fits : ¬ 0x100000000 ≤ Text.byteLength text + 1 := by omega
  simp only [parseStatement, if_neg fits, inScratch, Action.bind_run, save]
  rcases run : e.marshal text (e.save m).2 with ⟨error | call, ready⟩
  · obtain ⟨asked, recorded, few, only⟩ :=
      repeats_marshal e probe text (e.save m).2 (.saved :: events)
    rw [run] at recorded
    rw [recorded]
    exact ⟨asked, rfl, .refused run few only⟩
  · -- only here is the entry point called
    have marshalled := marshalled_of_marshal run
    rw [marshalled.recording probe]
    refine ⟨_ :: call.allocations, ?_, .called marshalled⟩
    simp only [parse_recording]
    rcases e.parse call ready with ⟨_ | count, after⟩
    · rfl
    · simp only [Recorded.read_holding]
      rfl

/-- The last thing that a call does, whatever became of it, is to put the pointer back. -/
theorem parseStatement_eq_restore (e : Engine σ) (m : Machine σ)
    (short : Text.byteLength text < 0xFFFFFFFF) :
    ∃ last, (e.parseStatement text m).2 = e.restore (e.save m).1 last := by
  rw [parseStatement, if_neg (by omega)]
  exact ⟨_, rfl⟩

theorem pointer_parseStatement (keeps : e.Keeps pointer) (text : Text) (m : Machine σ) :
    pointer (e.parseStatement text m).2 = pointer m := by
  by_cases short : Text.byteLength text < 0xFFFFFFFF
  · obtain ⟨last, restored⟩ := parseStatement_eq_restore e m short
    rw [restored, keeps.restore, keeps.save]
  · rw [parseStatement, if_pos (by omega)]

end Engine

end SchemaHighlighter
