import SchemaHighlighter.Proofs.Engine.Grammar
import SchemaHighlighter.Proofs.Record.Agreement

/-! # Oblivious engines

An oblivious engine takes its answers from the input, the ids of statements aside, and names in
them nothing but stretches of the input. What earlier calls left in the memory is then never
read: two machines of one size, with the scratch stack at one place, answer alike whatever their
memories hold, and stay as alike as they were. -/
namespace SchemaHighlighter

/-- The answer with another id for its statement. -/
def Answer.withId (id : Int) (a : Answer) : Answer :=
  { a with statement := a.statement.map fun d => { d with id } }

section

variable {m m' : Memory} {call : ParseCall} {input : List UInt8} {a : Answer}

theorem Answer.statusWords_withId (base : Nat) (a : Answer) (id : Int) :
    (a.withId id).statusWords base = a.statusWords base := rfl

theorem Answer.Encodable.withId (encodable : a.Encodable) (id : Int) :
    (a.withId id).Encodable := by
  obtain ⟨code, location, statement, count⟩ := a
  refine ⟨encodable.code, ?_, ?_⟩
  · intro d member
    obtain ⟨draft, is, rfl⟩ := Option.map_eq_some_iff.1 member
    exact encodable.kind draft is
  · intro base
    have fits := encodable.statement base
    cases statement <;> exact fits

theorem Answer.ViewsInto.withId (views : a.ViewsInto input) (id : Int) :
    (a.withId id).ViewsInto input := by
  refine ⟨views.location, ?_⟩
  intro d member
  obtain ⟨draft, is, rfl⟩ := Option.map_eq_some_iff.1 member
  exact views.name draft is

/-- Memories that are prepared for one call agree on all that belongs to it. -/
theorem ParseCall.Prepared.agreeOn (prepared : call.Prepared input m)
    (prepared' : call.Prepared input m') (same : m'.size = m.size) :
    ∀ r ∈ call.regions, m.AgreeOn m' r.start r.length := by
  intro r member
  rcases mem_regions.1 member with rfl | rfl | rfl
  · exact .of_slice same prepared.fits_input (prepared'.input.trans prepared.input.symm)
  · exact .of_slice same prepared.fits_status (prepared'.status.trans prepared.status.symm)
  · exact .of_slice same prepared.fits_statement (prepared'.statement.trans prepared.statement.symm)

/-- Answers that differ in the id alone differ in the first word of the statement record alone. -/
theorem Memory.AgreeOn.written {offset length : Nat} (id id' : Int)
    (h : m.AgreeOn m' offset length)
    (apart : offset + length ≤ call.statement ∨ call.statement + 4 ≤ offset) :
    ((a.withId id).written call m).AgreeOn ((a.withId id').written call m') offset length := by
  have status := h.store call.status ((a.statusWords call.input).flatMap bytesOfWord)
  simp only [Answer.written, Answer.store, Memory.storeWords, Answer.statusWords_withId]
  cases statement : a.statement with
  | none =>
    simp only [Answer.statementWords, Answer.withId, statement, Option.map_none]
    exact status.store _ _
  | some d =>
    simp only [Answer.statementWords, Answer.withId, statement, Option.map_some, List.flatMap_cons,
      Memory.store_append, length_bytesOfWord]
    apply Memory.AgreeOn.store
    apply Memory.AgreeOn.store
    apply status.store_outside
    · rw [length_bytesOfWord, length_bytesOfWord]
    · rwa [length_bytesOfWord]

theorem Engine.readAnswer_congr
    (status : Status.read m' call.status call.input = Status.read m call.status call.input)
    (statement : (Statement.read m' call.statement call.input).map (fun s => { s with id := 0 }) =
      (Statement.read m call.statement call.input).map fun s => { s with id := 0 }) (raw : Int) :
    (readAnswer call raw m').map ParseResult.withoutId =
      (readAnswer call raw m).map ParseResult.withoutId := by
  rw [readAnswer, readAnswer, status]
  generalize Statement.read m' call.statement call.input = read' at statement ⊢
  generalize Statement.read m call.statement call.input = read at statement ⊢
  cases Status.read m call.status call.input with
  | error => simp only [bind, Except.bind]
  | ok status =>
    cases resumable : status.code.isResumable with
    | false => simp only [bind, Except.bind, resumable, Bool.false_eq_true, if_false]
    | true =>
      simp only [bind, Except.bind, resumable, if_true]
      cases read' with
      | error e' =>
        cases read with
        | error e =>
          rw [Except.error.inj statement]
        | ok s => cases statement
      | ok s' =>
        cases read with
        | error e => cases statement
        | ok s =>
          have alike := Except.ok.inj statement
          simp only [Functor.map, Except.map, pure, Except.pure, ParseResult.withoutId,
            Option.map_some, alike]

/-- The same is read of two answers that differ in the id alone, but for that id. -/
theorem readAnswer_written_withId (same : m'.size = m.size) (small : m.size < 0x100000000)
    (prepared : call.Prepared input m) (prepared' : call.Prepared input m')
    (encodable : a.Encodable) (views : a.ViewsInto input) (id id' raw : Int) :
    (Engine.readAnswer call raw ((a.withId id').written call m')).map ParseResult.withoutId =
      (Engine.readAnswer call raw ((a.withId id).written call m)).map ParseResult.withoutId := by
  have agree := prepared.agreeOn prepared' same
  have inputs := prepared.input_statement
  have records := prepared.status_statement
  have statusFits := Memory.fits_iff.1 prepared.fits_status
  have statementFits := Memory.fits_iff.1 prepared.fits_statement
  have size : Statement.recordSize = 64 := rfl
  have source : ((a.withId id).written call m).AgreeOn ((a.withId id').written call m')
      call.input call.length := by
    have input : m.AgreeOn m' call.input (call.length + 1) := agree _ (.head _)
    exact (input.part (Nat.le_refl _) (by omega)).written id id' (by omega)
  have statusRead :
      Status.read ((a.withId id').written call m') call.status call.input =
        Status.read ((a.withId id).written call m) call.status call.input := by
    have status : m.AgreeOn m' call.status Status.recordSize := agree _ (.tail _ (.head _))
    apply (status.written id id' (by omega)).readStatus source
    · exact leadsInto_status_written small prepared (encodable.withId id) (views.withId id)
    · omega
  -- the id is the one word that the records do not share, and it is left out here
  have statementRead :
      (Statement.read ((a.withId id').written call m') call.statement call.input).map
          (fun s => { s with id := 0 }) =
        (Statement.read ((a.withId id).written call m) call.statement call.input).map
          fun s => { s with id := 0 } := by
    have statement : m.AgreeOn m' call.statement Statement.recordSize :=
      agree _ (.tail _ (.tail _ (.head _)))
    have rest : m.AgreeOn m' (call.statement + 4) 60 :=
      statement.part (by omega) (Nat.le_of_eq (Nat.add_assoc ..))
    apply (rest.written id id' (.inr (Nat.le_refl _))).readStatement_withoutId source
    · intro raw read n named
      exact leadsInto_statement_written small prepared (encodable.withId id) (views.withId id)
        read named
    · omega
    · exact prepared.aligned_statement
    · exact fits_written.2 prepared.fits_statement
  exact Engine.readAnswer_congr statusRead statementRead raw

end

theorem map_mapError {ε ε' α β : Type} (f : ε → ε') (g : α → β) (r : Except ε α) :
    (r.mapError f).map g = (r.map g).mapError f := by
  cases r <;> rfl

namespace Engine

variable {τ : Type} {parse : ParseCall → Action (Linear τ) Int} {text : Text}
  {m : Machine (Linear τ)} {own : τ → Prop} {P : Text → Answer} {size : Nat} {scratch : Scratch}

/-- In the states `own`, which calls do not leave, the entry point answers every text by `P` but
for the ids of statements: whenever a call is prepared, it leaves the answer in the two records. -/
structure Oblivious (P : Text → Answer) (own : τ → Prop)
    (parse : ParseCall → Action (Linear τ) Int) : Prop where
  encodable : ∀ text, (P text).Encodable
  views : ∀ text, (P text).ViewsInto (Text.encode text)
  answers : ∀ (text : Text) (call : ParseCall) (m : Machine (Linear τ)),
    Linear.Addressed m → call.Prepared (Text.encode text) m.memory → own m.control.own →
    ∃ (id : Int) (memory : Memory) (after : Linear τ),
      ((P text).withId id).LeftIn call m.memory memory ∧
      after.scratch.limit = m.control.scratch.limit ∧ own after.own ∧
      parse call m = (.ok (P text).count, ⟨memory, after⟩)

/-- Between two calls a machine has kept all that a call may depend on. -/
structure InService (size : Nat) (scratch : Scratch) (own : τ → Prop) (m : Machine (Linear τ)) :
    Prop where
  size : m.memory.size = size
  scratch : m.control.scratch = scratch
  owned : own m.control.own

/-- Outcomes that differ in the id of the statement alone. -/
inductive Alike : Except EngineError ParseResult → Except EngineError ParseResult → Prop
  | error (error : EngineError) : Alike (.error error) (.error error)
  | ok {result result' : ParseResult} : result'.withoutId = result.withoutId →
    Alike (.ok result) (.ok result')

theorem alike_of_map {outcome outcome' : Except EngineError ParseResult}
    (same : outcome'.map ParseResult.withoutId = outcome.map ParseResult.withoutId) :
    Alike outcome outcome' := by
  cases outcome with
  | error error =>
    cases outcome' with
    | error error' =>
      cases same
      exact .error error
    | ok result' => cases same
  | ok result =>
    cases outcome' with
    | error error' => cases same
    | ok result' => exact .ok (Except.ok.inj same)

/-- On the machines of a class one is as good as another: calls do not lead out of it, and
outcomes differ in the ids of statements alone. -/
structure Interchangeable {σ : Type} (e : Engine σ) (fit : Machine σ → Prop) : Prop where
  keeps : ∀ text m, fit m → fit (e.parseStatement text m).2
  alike : ∀ text m m', fit m → fit m' →
    Alike (e.parseStatement text m).1 (e.parseStatement text m').1

theorem InService.addressed (short : size < 0x100000000) (within : scratch.pointer ≤ size)
    (fit : InService size scratch own m) : Linear.Addressed m := by
  constructor
  · rwa [fit.size]
  · rwa [fit.size, fit.scratch]

theorem InService.prepared (short : size < 0x100000000) (within : scratch.pointer ≤ size)
    (fit : InService size scratch own m)
    (room : scratch.Holds (Scratch.callSizes (Text.byteLength text))) :
    (scratch.layout (Text.byteLength text)).Prepared (Text.encode text) (ready text m).memory := by
  have addressed := fit.addressed short within
  rw [← fit.scratch] at room ⊢
  exact prepared_ready addressed room

theorem parseStatement_of_oblivious (oblivious : Oblivious P own parse)
    (short : size < 0x100000000) (within : scratch.pointer ≤ size)
    (fit : InService size scratch own m)
    (room : scratch.Holds (Scratch.callSizes (Text.byteLength text))) :
    let call := scratch.layout (Text.byteLength text)
    ∃ id after, InService size scratch own after ∧
      (linear parse).parseStatement text m =
        ((readAnswer call (P text).count
          (((P text).withId id).written call (ready text m).memory)).mapError .access, after) := by
  intro call
  have addressed := fit.addressed short within
  have prepared := fit.prepared short within room
  obtain ⟨rfl, rfl, owned⟩ := fit
  have ready := addressed_ready text addressed
  obtain ⟨id, memory, after, left, limit, owned', answered⟩ :=
    oblivious.answers text call _ ready prepared owned
  have run := parseStatement_of_room addressed room limit answered
  have read := left.readAnswer_eq ready.short prepared ((oblivious.encodable text).withId id)
    ((oblivious.views text).withId id) (P text).count
  rw [read] at run
  refine ⟨id, ⟨memory, { after with scratch := m.control.scratch }⟩, ?_, run⟩
  exact ⟨left.size.trans (size_ready ..), rfl, owned'⟩

/-- Which machine of its class an oblivious engine has does not show. -/
theorem interchangeable_of_oblivious (oblivious : Oblivious P own parse)
    (short : size < 0x100000000) (within : scratch.pointer ≤ size) :
    Interchangeable (linear parse) (InService size scratch own) := by
  constructor
  · intro text m fit
    by_cases room : scratch.Holds (Scratch.callSizes (Text.byteLength text))
    · obtain ⟨id, after, fit', run⟩ := parseStatement_of_oblivious oblivious short within fit room
      rw [run]
      exact fit'
    · obtain ⟨requested, available, overflows⟩ := overflow_of_not_holds parse room
      obtain ⟨memory, run, same⟩ := overflows m (fit.addressed short within) fit.scratch
      rw [run]
      exact ⟨same.size.trans fit.size, fit.scratch, fit.owned⟩
  · intro text m m' fit fit'
    apply alike_of_map
    have addressed := fit.addressed short within
    have addressed' := fit'.addressed short within
    by_cases room : scratch.Holds (Scratch.callSizes (Text.byteLength text))
    · obtain ⟨id, after, -, run⟩ := parseStatement_of_oblivious oblivious short within fit room
      obtain ⟨id', after', -, run'⟩ := parseStatement_of_oblivious oblivious short within fit' room
      have prepared := fit.prepared short within room
      have prepared' := fit'.prepared short within room
      have same : (ready text m').memory.size = (ready text m).memory.size := by
        rw [size_ready, size_ready, fit.size, fit'.size]
      have read := readAnswer_written_withId same (addressed_ready text addressed).short prepared
        prepared' (oblivious.encodable text) (oblivious.views text) id id' (P text).count
      rw [run, run', map_mapError, map_mapError, read]
    · -- without room the entry point is never called, and the stacks are the same
      obtain ⟨requested, available, overflows⟩ := overflow_of_not_holds parse room
      obtain ⟨memory, run, -⟩ := overflows m addressed fit.scratch
      obtain ⟨memory', run', -⟩ := overflows m' addressed' fit'.scratch
      rw [run, run']

end Engine

namespace Grammar

theorem withId_answer (parsed : Parsed) (id : Int) :
    (parsed.answer 0).withId id = parsed.answer id := by
  cases parsed <;> rfl

theorem namesIn_draft {phrase : Phrase} {text : Text} (id : Int) (stands : phrase.IsIn text) :
    Draft.NamesIn (Text.encode text)
      { id, kind := phrase.kind.toRaw, payload := phrase.payload } := by
  have inside : ∀ w : Word, w.StandsIn text → (w.view.span? (Text.encode text)).isSome := by
    intro w stands
    rw [stands.span?]
    rfl
  intro n named
  rw [StatementKind.ofRaw_toRaw] at named
  cases phrase with
  | blockEnd | generates | userField => cases named
  | package keyword main name =>
    cases named
    exact ⟨[_], name.view, [], rfl, rfl, inside name stands⟩
  | importing keyword name =>
    cases named
    exact ⟨[], name.view, [], rfl, rfl, inside name stands⟩
  | definition d keyword name =>
    have first : n = 0 := by cases d <;> cases named <;> rfl
    exact ⟨[], name.view, [], rfl, first.symm, inside name stands⟩
  | enumValue name value =>
    cases named
    exact ⟨[], name.view, [.word value], rfl, rfl, inside name stands.1⟩
  | field type typeWord name =>
    cases named
    exact ⟨[_], name.view, [.word 0], rfl, rfl, inside name stands⟩

theorem viewsInto_answer {text : Text} {parsed : Parsed} (sound : parsed.Sound text) (id : Int) :
    (parsed.answer id).ViewsInto (Text.encode text) := by
  cases parsed with
  | statement code consumed phrase =>
    constructor
    · rintro _ ⟨⟩
    · rintro _ ⟨⟩
      exact namesIn_draft id sound.2.2
  | failure code location =>
    constructor
    · intro v member
      obtain ⟨w, stands, rfl⟩ := sound.2 v member
      rw [stands.span?]
      rfl
    · rintro _ ⟨⟩

theorem oblivious_engine :
    Engine.Oblivious (fun text => (parse text).answer 0) (fun s => s.faults = {}) engine.parse where
  encodable text := encodable_answer 0 (parse text)
  views text := viewsInto_answer (sound_parse text) 0
  answers text call m _ prepared faultless := by
    obtain ⟨answered, scratch, faultless'⟩ := answer_of_faultless text faultless
    have encodable := encodable_answer m.control.own.nextId (parse text)
    have count : ((parse text).answer m.control.own.nextId).count =
        ((parse text).answer 0).count := by
      rw [← withId_answer]
      rfl
    have left := Answer.LeftIn.refl prepared encodable
    rw [← withId_answer] at left
    refine ⟨m.control.own.nextId, _, _, left, ?_, faultless', ?_⟩
    · rw [scratch]
    · rw [← count, withId_answer]
      exact Engine.answering_parse prepared (Prod.ext answered rfl) encodable

end Grammar

end SchemaHighlighter
