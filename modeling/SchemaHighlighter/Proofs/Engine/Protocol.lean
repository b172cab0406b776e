import SchemaHighlighter.Proofs.Engine.Answered

/-! # The memory protocol

An engine that leaves an answer in the two records of a call is understood as what the answer
means. What lay in memory before has no part in it: the records are cleared, and the three
regions of the call do not touch one another. -/
namespace SchemaHighlighter

namespace Engine

variable {τ : Type} {parse : ParseCall → Action (Linear τ) Int} {text : Text}
  {m : Machine (Linear τ)}

theorem inScratch_linear {α : Type} (body : Action (Linear τ) α) :
    (linear parse).inScratch body m =
      ((body m).1, Linear.restore m.control.scratch.pointer (body m).2) := rfl

theorem linear_parse : (linear parse).parse = parse := rfl

/-- Parsing a text is its one call, and reading back what the call leaves. -/
theorem parseStatement_of_room {raw : Int} {memory : Memory} {after : Linear τ}
    (addressed : Linear.Addressed m)
    (room : m.control.scratch.Holds (Scratch.callSizes (Text.byteLength text)))
    (limit : after.scratch.limit = m.control.scratch.limit)
    (answered : parse (m.control.scratch.layout (Text.byteLength text)) (ready text m) =
      (.ok raw, ⟨memory, after⟩)) :
    (linear parse).parseStatement text m =
      ((readAnswer (m.control.scratch.layout (Text.byteLength text)) raw memory).mapError .access,
        ⟨memory, { after with scratch := m.control.scratch }⟩) := by
  have below := (Scratch.apart_layout room).input
  have short : ¬ 0x100000000 ≤ Text.byteLength text + 1 := by
    have length : (m.control.scratch.layout (Text.byteLength text)).length =
      Text.byteLength text := rfl
    have within := addressed.within
    have small := addressed.short
    omega
  rw [parseStatement, if_neg short, inScratch_linear, Action.bind_run,
    marshal_of_holds addressed room]
  have restored : Linear.restore m.control.scratch.pointer ⟨memory, after⟩ =
      ⟨memory, { after with scratch := m.control.scratch }⟩ := by
    simp only [Linear.restore, limit]
  simp only [Action.bind_run, linear_parse, answered, Action.read]
  cases readAnswer (m.control.scratch.layout (Text.byteLength text)) raw memory <;>
    exact congrArg _ restored

/-- One call that leaves the answer `a` comes to what `a` means, and leaves the stack as it was. -/
theorem parseStatement_of_answer {a : Answer} {result : ParseResult} {memory : Memory}
    {after : Linear τ} (sound : Linear.Sound m)
    (room : m.control.scratch.Holds (Scratch.callSizes (Text.byteLength text)))
    (encodable : a.Encodable) (means : a.meaning? (Text.encode text) = some result)
    (left : a.LeftIn (m.control.scratch.layout (Text.byteLength text)) (ready text m).memory memory)
    (limit : after.scratch.limit = m.control.scratch.limit)
    (answered : parse (m.control.scratch.layout (Text.byteLength text)) (ready text m) =
      (.ok a.count, ⟨memory, after⟩)) :
    (linear parse).parseStatement text m =
        (.ok result, ⟨memory, { after with scratch := m.control.scratch }⟩) ∧
      memory.size = m.memory.size := by
  have prepared := prepared_ready sound.addressed room
  have read := left.readAnswer (sound_ready text sound).small prepared encodable means
  rw [parseStatement_of_room sound.addressed room limit answered, read]
  exact ⟨rfl, left.size.trans (size_ready ..)⟩

/-- Without room for the three allocations of a call, only the memory tells that it was tried, and
which of them was refused follows from the stack. -/
theorem overflow_of_not_holds (parse : ParseCall → Action (Linear τ) Int) {s : Scratch}
    (full : ¬ s.Holds (Scratch.callSizes (Text.byteLength text))) :
    ∃ requested available, ∀ m : Machine (Linear τ), Linear.Addressed m →
      m.control.scratch = s → ∃ memory, (linear parse).parseStatement text m =
          (.error (.stackOverflow requested available), ⟨memory, m.control⟩) ∧
        memory.SameOutside s.limit s.pointer m.memory := by
  by_cases long : 0x100000000 ≤ Text.byteLength text + 1
  · refine ⟨0xFFFFFFFF, 0, ?_⟩
    intro m addressed same
    rw [parseStatement, if_pos long]
    exact ⟨_, rfl, .refl _⟩
  · refine ⟨(s.refused (Scratch.callSizes (Text.byteLength text))).requested,
      (s.refused (Scratch.callSizes (Text.byteLength text))).available, ?_⟩
    rintro m addressed rfl
    obtain ⟨memory, scratch, overflow, same, limit⟩ := marshal_of_not_holds parse addressed full
    refine ⟨memory, ?_, same⟩
    rw [parseStatement, if_neg long, inScratch_linear, Action.bind_run, overflow]
    simp only [Linear.restore, limit]

theorem parseStatement_of_not_holds (parse : ParseCall → Action (Linear τ) Int)
    (sound : Linear.Sound m)
    (full : ¬ m.control.scratch.Holds (Scratch.callSizes (Text.byteLength text))) :
    ∃ requested available memory,
      (linear parse).parseStatement text m =
        (.error (.stackOverflow requested available), ⟨memory, m.control⟩) ∧
      memory.size = m.memory.size := by
  obtain ⟨requested, available, overflows⟩ := overflow_of_not_holds parse full
  obtain ⟨memory, run, same⟩ := overflows m sound.addressed rfl
  exact ⟨requested, available, memory, run, same.size⟩

theorem answering_parse {answer : List UInt8 → Linear τ → Answer × Linear τ} {call : ParseCall}
    {input : List UInt8} {a : Answer} {after : Linear τ} (prepared : call.Prepared input m.memory)
    (answered : answer input m.control = (a, after)) (encodable : a.Encodable) :
    (answering answer).parse call m = (.ok a.count, ⟨a.written call m.memory, after⟩) := by
  have status := prepared.fits_status
  have statement := prepared.fits_statement
  have first := a.length_statusWords_le call.input
  have second := encodable.statement call.input
  have room : m.memory.Fits call.status (4 * (a.statusWords call.input).length) ∧
      m.memory.Fits call.statement (4 * (a.statementWords call.input).length) :=
    ⟨status.part (by omega), statement.part (by omega)⟩
  simp only [answering, linear, prepared.start, Nat.add_zero, Nat.sub_zero, prepared.slice_input,
    answered, if_pos room]
  rfl

end Engine

end SchemaHighlighter
