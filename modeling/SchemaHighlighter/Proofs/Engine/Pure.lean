import SchemaHighlighter.Proofs.Engine.Protocol

/-! # Pure engines

A pure engine computes its answer from the text that it is given, the id of a statement aside,
and tells it in the two records of the call. Whatever else it keeps to itself may change from
call to call. One call of it either comes to its answer or overflows the scratch stack. -/
namespace SchemaHighlighter

/-- A result with the id of its statement left out. -/
def ParseResult.withoutId (r : ParseResult) : ParseResult :=
  { r with statement := r.statement.map fun s => { s with id := 0 } }

@[simp] theorem ParseResult.status_withoutId (r : ParseResult) :
    r.withoutId.status = r.status := rfl

@[simp] theorem ParseResult.consumed_withoutId (r : ParseResult) :
    r.withoutId.consumed = r.consumed := rfl

/-- On the beginning of a text the answer asks for more, or is the answer to all of it. -/
def PrefixStable (f : Text → ParseResult) : Prop :=
  ∀ ⦃beginning text : Text⦄, beginning <+: text →
    (f beginning).status.code.needsMoreInput = true ∨ f beginning = f text

/-- Every beginning of `text` with at least `n` bytes is enough for an answer. -/
def AnsweredFrom (f : Text → ParseResult) (n : Nat) (text : Text) : Prop :=
  ∀ ⦃beginning : Text⦄, beginning <+: text → n ≤ Text.byteLength beginning →
    (f beginning).status.code.needsMoreInput = false

namespace Engine

variable {τ : Type} {parse : ParseCall → Action (Linear τ) Int} {text : Text}
  {m : Machine (Linear τ)} {own : τ → Prop} {f : Text → ParseResult}

/-- In the states `own`, which calls do not leave, the entry point answers every text by `f`, and
counts no more than the text has: whenever a call is prepared, it leaves in the two records an
answer that means this. -/
structure Pure (f : Text → ParseResult) (own : τ → Prop)
    (parse : ParseCall → Action (Linear τ) Int) : Prop where
  bounded : ∀ text, (f text).consumed ≤ Text.byteLength text
  answers : ∀ (text : Text) (call : ParseCall) (m : Machine (Linear τ)),
    Linear.Sound m → call.Prepared (Text.encode text) m.memory → own m.control.own →
    ∃ (a : Answer) (memory : Memory) (after : Linear τ), a.Encodable ∧
      (a.meaning? (Text.encode text)).map ParseResult.withoutId = some (f text) ∧
      a.count = (f text).consumed ∧ a.LeftIn call m.memory memory ∧
      after.scratch.limit = m.control.scratch.limit ∧ own after.own ∧
      parse call m = (.ok a.count, ⟨memory, after⟩)

/-- A machine on which a pure engine can go on. -/
structure Serviceable (own : τ → Prop) (m : Machine (Linear τ)) : Prop where
  sound : Linear.Sound m
  owned : own m.control.own

theorem parseStatement_of_holds (pure : Pure f own parse) (fit : Serviceable own m)
    (room : m.control.scratch.Holds (Scratch.callSizes (Text.byteLength text))) :
    ∃ result after, (linear parse).parseStatement text m = (.ok result, after) ∧
      result.withoutId = f text ∧ after.control.scratch = m.control.scratch ∧
      Serviceable own after := by
  have sound := fit.sound
  obtain ⟨a, memory, after, encodable, means, -, left, limit, owned, answered⟩ :=
    pure.answers text _ (ready text m) (sound_ready text sound)
      (prepared_ready sound.addressed room) fit.owned
  obtain ⟨result, means, same⟩ := Option.map_eq_some_iff.1 means
  obtain ⟨run, size⟩ := parseStatement_of_answer sound room encodable means left limit answered
  exact ⟨result, _, run, same, rfl, sound.of_size size rfl, owned⟩

theorem parseStatement_of_pure (pure : Pure f own parse) (fit : Serviceable own m)
    {outcome : Except EngineError ParseResult} {after : Machine (Linear τ)}
    (run : (linear parse).parseStatement text m = (outcome, after)) :
    Serviceable own after ∧ after.control.scratch = m.control.scratch ∧
      ((∃ result, outcome = .ok result ∧ result.withoutId = f text) ∨
        ∃ requested available, outcome = .error (.stackOverflow requested available)) := by
  by_cases room : m.control.scratch.Holds (Scratch.callSizes (Text.byteLength text))
  · obtain ⟨result, after', run', same, scratch, fit'⟩ := parseStatement_of_holds pure fit room
    rw [run'] at run
    cases run
    exact ⟨fit', scratch, .inl ⟨result, rfl, same⟩⟩
  · obtain ⟨requested, available, memory, run', size⟩ :=
      parseStatement_of_not_holds parse fit.sound room
    rw [run'] at run
    cases run
    exact ⟨⟨fit.sound.of_size size rfl, fit.owned⟩, rfl, .inr ⟨requested, available, rfl⟩⟩

end Engine

end SchemaHighlighter
