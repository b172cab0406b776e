import SchemaHighlighter.Engine.Recording
import SchemaHighlighter.Highlight.Window
import SchemaHighlighter.Proofs.Engine.Unguarded

/-! # A call survives any engine

An engine may answer allocations with any addresses, leave any bytes behind and count as it likes.
A call then comes to an error, or to a result that lies within bounds: nothing in it leads out of
the input or of the memory. -/
namespace SchemaHighlighter

variable {σ : Type}

namespace Engine

variable {e : Engine σ} {text : Text} {m : Machine σ}

/-- The entry point is called once everything is laid out, and answers a count. -/
def Counts (e : Engine σ) (text : Text) (m : Machine σ) (raw : Int) : Prop :=
  ∃ call ready after, Marshalled e text (e.save m).2 call ready ∧
    e.parse call ready = (.ok raw, after)

/-- One call answers one count. -/
theorem Counts.unique {raw raw' : Int} (h : e.Counts text m raw) (h' : e.Counts text m raw') :
    raw = raw' := by
  obtain ⟨call, ready, after, laid, answered⟩ := h
  obtain ⟨call', ready', after', laid', answered'⟩ := h'
  have same := (marshal_of_marshalled laid).symm.trans (marshal_of_marshalled laid')
  cases same
  cases answered.symm.trans answered'
  rfl

end Engine

/-- A result that fits an input of `length` bytes in a memory of `size`, whatever the engine had
to say. -/
structure ParseResult.Bounded (result : ParseResult) (raw : Int) (length size : Nat) : Prop where
  consumed : (result.consumed : Int) = max 0 (min raw length)
  statement : result.statement.isSome = true ↔ result.status.code ∈ [.ok, .blockBegin, .blockEnd]
  noLocation : result.status.code.isTerminal = false → result.status.errorLocation = {}
  location : result.status.errorLocation.stop ≤ size
  name : ∀ s ∈ result.statement, ∀ span ∈ s.data.name?, span.stop ≤ size

theorem clampCount_eq (raw : Int) (length : Nat) :
    (clampCount raw length : Int) = max 0 (min raw length) := by
  rw [clampCount]
  omega

theorem StatusCode.isResumable_eq_true (code : StatusCode) :
    code.isResumable = true ↔ code ∈ [.ok, .blockBegin, .blockEnd] := by
  cases code <;> decide

theorem mem_countLog {raw : Int} {length : Nat} {event : LogEvent} :
    event ∈ countLog raw length ↔
      (raw < 0 ∨ (length : Int) < raw) ∧ event = .countClamped raw length := by
  rw [countLog]
  split
  case isTrue outside => simp only [List.mem_singleton, outside, true_and]
  case isFalse inside => simp only [List.not_mem_nil, inside, false_and]

theorem length_countLog_le (raw : Int) (length : Nat) : (countLog raw length).length ≤ 1 := by
  rw [countLog]
  split
  case isTrue => exact Nat.le_refl 1
  case isFalse => exact Nat.zero_le 1

theorem Status.location_stop_le {s : Status} {m : Memory} {offset base : Nat}
    (h : Status.read m offset base = .ok s) : s.errorLocation.stop ≤ m.size := by
  obtain ⟨formed, held⟩ := Status.of_read h
  by_cases located : s.code.isTerminal = true ∧ 0 < m.wordAt (offset + 8)
  · obtain ⟨terminal, some⟩ := located
    have names := held.location terminal some
    rw [held.code.eq_ofRaw] at terminal
    exact (formed.location terminal some).stop_le names
  · have unlocated : s.code.isTerminal = false ∨ m.wordAt (offset + 8) ≤ 0 := by
      rwa [Decidable.not_and_iff_not_or_not, Bool.not_eq_true, Int.not_lt] at located
    rw [held.noLocation unlocated]
    exact Nat.zero_le _

theorem StatementData.name_stop_le {kind : StatementKind} {data : StatementData} {m : Memory}
    {offset base : Nat} {span : SourceSpan} (h : StatementData.read m kind offset base = .ok data)
    (named : span ∈ data.name?) : span.stop ≤ m.size := by
  obtain ⟨-, views, same, tells⟩ := of_readData h
  subst same
  cases data with
  | package isMain name =>
    cases named
    exact (views 1 rfl).stop_le tells.2
  | importing name =>
    cases named
    exact (views 0 rfl).stop_le tells
  | definition d name =>
    cases named
    have word : d.kind.nameWord? = some 0 := by cases d <;> rfl
    exact (views 0 word).stop_le tells
  | enumValue name value =>
    cases named
    exact (views 0 rfl).stop_le tells.1
  | field type name length =>
    cases named
    exact (views 1 rfl).stop_le tells.2.1
  | bare _ => cases named

theorem Statement.name_stop_le {s : Statement} {m : Memory} {offset base : Nat} {span : SourceSpan}
    (h : Statement.read m offset base = .ok s) (named : span ∈ s.data.name?) :
    span.stop ≤ m.size := by
  obtain ⟨raw, -, -, read⟩ := Statement.parts_of_read h
  exact StatementData.name_stop_le read named

namespace Engine

variable {e : Engine σ} {text : Text} {m : Machine σ}

theorem bounded_of_readAnswer {call : ParseCall} {raw : Int} {memory : Memory}
    {result : ParseResult} (h : readAnswer call raw memory = .ok result) :
    result.Bounded raw call.length memory.size ∧ result.log = countLog raw call.length := by
  obtain ⟨status, statusRead, h⟩ := exists_of_bind h
  obtain ⟨-, held⟩ := Status.of_read statusRead
  have noLocation : status.code.isTerminal = false → status.errorLocation = {} :=
    fun resumable => held.noLocation (.inl resumable)
  have location := Status.location_stop_le statusRead
  have codes := StatusCode.isResumable_eq_true status.code
  by_cases resumable : status.code.isResumable = true
  · simp only [if_pos resumable] at h
    obtain ⟨statement, statementRead, h⟩ := exists_of_bind h
    cases h
    rcases read : Statement.read memory call.statement call.input with error | s
    · rw [read] at statementRead
      cases statementRead
    · rw [read] at statementRead
      cases statementRead
      refine
        ⟨⟨clampCount_eq .., iff_of_true rfl (codes.1 resumable), noLocation, location, ?_⟩, rfl⟩
      rintro _ ⟨⟩ span named
      exact Statement.name_stop_le read named
  · simp only [if_neg resumable] at h
    cases h
    exact ⟨⟨clampCount_eq .., iff_of_false nofun (mt codes.2 resumable), noLocation, location,
      nofun⟩, rfl⟩

theorem counts_of_parseStatement {result : ParseResult} (keeps : e.KeepsSize)
    (h : (e.parseStatement text m).1 = .ok result) :
    ∃ raw, e.Counts text m raw ∧ result.Bounded raw (Text.byteLength text) m.memory.size ∧
      result.log = countLog raw (Text.byteLength text) := by
  by_cases long : 0x100000000 ≤ Text.byteLength text + 1
  · rw [parseStatement, if_pos long] at h
    cases h
  · rw [parseStatement, if_neg long] at h
    obtain ⟨call, ready, marshalled, h⟩ := Action.bind_eq_ok (Prod.ext h rfl)
    obtain ⟨raw, after, answered, h⟩ := Action.bind_eq_ok h
    have laid := marshalled_of_marshal marshalled
    obtain ⟨size₁, length, -⟩ := laid.fits keeps
    have size₂ := keeps.parse answered
    rcases found : readAnswer call raw after.memory with error | answer
    · rw [Action.read, found] at h
      cases h
    · rw [Action.read, found] at h
      cases h
      obtain ⟨bounded, log⟩ := bounded_of_readAnswer found
      rw [size₂, size₁, keeps.save, length] at bounded
      rw [length] at log
      exact ⟨raw, ⟨call, ready, _, laid, answered⟩, bounded, log⟩

theorem keepsSize_linear {τ : Type} {parse : ParseCall → Action (Linear τ) Int}
    (keeps : ∀ {call m result m'}, parse call m = (result, m') → m'.memory.size = m.memory.size) :
    (linear parse).KeepsSize := by
  refine ⟨fun _ => rfl, ?_, keeps⟩
  intro n m result m' run
  by_cases fits : m.control.scratch.FitsNext n
  · cases (Linear.alloc_of_fitsNext fits).symm.trans run
    rfl
  · cases (Linear.alloc_of_not_fitsNext fits).symm.trans run
    rfl

theorem keepsSize_answering {τ : Type} (answer : List UInt8 → Linear τ → Answer × Linear τ) :
    (answering answer).KeepsSize := by
  refine keepsSize_linear ?_
  rintro call ⟨memory, control⟩ result m' run
  simp only at run
  split at run
  · cases run
    simp only [Answer.store, Memory.storeWords, Memory.size_store]
  · cases run
    rfl

theorem KeepsSize.overriding (keeps : e.KeepsSize) : e.overriding.KeepsSize := by
  refine ⟨fun m => keeps.save ⟨m.memory, m.control.inner⟩, ?_, ?_⟩
  · rintro n ⟨memory, inner, outcomes⟩ result m' run
    match outcomes with
    | [] | none :: _ =>
      cases run
      exact keeps.alloc (m := ⟨memory, inner⟩) rfl
    | some _ :: _ =>
      cases run
      rfl
  · rintro call m result m' run
    cases run
    exact keeps.parse (m := ⟨m.memory, m.control.inner⟩) rfl

/-- What a call logs, if anything, is the count of its engine, and that only if it comes to a
result and the count lies outside the input. -/
theorem mem_log_iff (keeps : e.KeepsSize) {event : LogEvent} :
    event ∈ Attempt.log ⟨Text.byteLength text, (e.parseStatement text m).1⟩ ↔
      ∃ result raw, (e.parseStatement text m).1 = .ok result ∧ e.Counts text m raw ∧
        (raw < 0 ∨ (Text.byteLength text : Int) < raw) ∧
          event = .countClamped raw (Text.byteLength text) := by
  rw [Attempt.log]
  cases returned : (e.parseStatement text m).1 with
  | error error =>
    refine iff_of_false List.not_mem_nil ?_
    rintro ⟨result, raw, ⟨⟩, -⟩
  | ok result =>
    obtain ⟨raw, counts, -, log⟩ := counts_of_parseStatement keeps returned
    simp only [log, mem_countLog]
    constructor
    · rintro ⟨outside, rfl⟩
      exact ⟨result, raw, rfl, counts, outside, rfl⟩
    · rintro ⟨_, raw', -, counts', outside, rfl⟩
      cases counts.unique counts'
      exact ⟨outside, rfl⟩

/-- Whatever addresses the engine hands out and whatever it leaves behind, a call does not end the
program. It comes to an error or to a result within bounds, and a count that had to be brought
into bounds is told in the log. -/
theorem parseStatement_survives (keeps : e.KeepsSize) (size : m.memory.size < 0x100000000)
    (short : Text.byteLength text < 0xFFFFFFFF) :
    let outcome := (e.parseStatement text m).1
    let log := Attempt.log ⟨Text.byteLength text, outcome⟩
    Unguarded.parseStatement e text m = some (e.parseStatement text m) ∧
      (∀ result, outcome = .ok result → ∃ raw, e.Counts text m raw ∧
        result.Bounded raw (Text.byteLength text) m.memory.size) ∧
      (∀ event, event ∈ log ↔ ∃ result raw, outcome = .ok result ∧ e.Counts text m raw ∧
        (raw < 0 ∨ Text.byteLength text < raw) ∧
        event = .countClamped raw (Text.byteLength text)) ∧
      log.length ≤ 1 := by
  intro outcome log
  refine ⟨unguarded_eq_some keeps size short, ?_, ?_, ?_⟩
  · intro result returned
    obtain ⟨raw, counts, bounded, -⟩ := counts_of_parseStatement keeps returned
    exact ⟨raw, counts, bounded⟩
  · exact fun _ => mem_log_iff keeps
  · rcases returned : outcome with error | result
    · simp only [log, Attempt.log, returned, List.length_nil, Nat.zero_le]
    · obtain ⟨raw, -, -, logged⟩ := counts_of_parseStatement keeps returned
      simp only [log, Attempt.log, returned, logged, length_countLog_le]

theorem parseStatement_survives_of_overlap :
    let answer : Answer :=
      { code := 0, statement := some ⟨1, 2, [.word 7, .view (.words 72 4)]⟩, count := -3 }
    let e := (answering fun _ (s : Linear Unit) => (answer, s)).overriding
    let text := "package".toList
    let m : Machine (Overridden (Linear Unit)) :=
      ⟨Memory.filled 76 9, {
        inner := { scratch := ⟨64, 0⟩, own := () }
        outcomes := [some (.ok 5), some (.ok 12), some (.ok 12)] }⟩
    let result : ParseResult := {
      status := { code := .blockBegin }
      consumed := 0
      statement := some ⟨1, .package true ⟨List.replicate 4 (Char.ofNat 0), 67⟩⟩
      log := [.countClamped (-3) 7] }
    m.memory.size < 0x100000000 ∧ Text.byteLength text < 0xFFFFFFFF ∧
      (e.parseStatement text m).1 = .ok result ∧
      Unguarded.parseStatement e text m = some (e.parseStatement text m) ∧
      e.Counts text m (-3) ∧ result.Bounded (-3) 7 76 := by
  intro answer e text m result
  have keeps : e.KeepsSize := (keepsSize_answering _).overriding
  have size : m.memory.size = 76 := Array.size_replicate
  have length : Text.byteLength text = 7 := by decide +kernel
  have small : m.memory.size < 0x100000000 := by omega
  have short : Text.byteLength text < 0xFFFFFFFF := by omega
  -- both records lie in one place, so the id of the statement is read as the code of the status
  have returned : (e.parseStatement text m).1 = .ok result :=
    eq_ok_of_toOption (by decide +kernel)
  obtain ⟨survives, bounded, logged, -⟩ := parseStatement_survives keeps small short
  have event : LogEvent.countClamped (-3) 7 ∈ Attempt.log
      ⟨Text.byteLength text, (e.parseStatement text m).1⟩ := by
    rw [returned]
    exact .head _
  obtain ⟨-, raw, -, counts, -, same⟩ := (logged _).1 event
  cases same
  obtain ⟨raw', counts', within⟩ := bounded result returned
  cases counts.unique counts'
  rw [length, size] at within
  exact ⟨small, short, returned, survives, counts, within⟩

end Engine

end SchemaHighlighter
