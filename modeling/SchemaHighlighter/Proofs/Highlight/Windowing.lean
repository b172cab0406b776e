import SchemaHighlighter.Proofs.Engine.Grammar
import SchemaHighlighter.Proofs.Highlight.Cases

/-! # Windowing

A scan with a pure engine whose answers to beginnings are stable sees the text through windows
of changing sizes. It still goes past the statements that one parse of all the remaining text
would find, as long as the scratch stack does not overflow, and past the first of them in any
case. -/
namespace SchemaHighlighter

theorem StatusCode.isTerminal_of_needsMoreInput {code : StatusCode}
    (h : code.needsMoreInput = true) : code.isTerminal = true := by
  cases code with
  | expectedStatementEnd | unexpectedEof | syntaxError => rfl
  | ok | blockBegin | blockEnd => cases h

instance : (stop : Stop) → Decidable (stop = .cancelled)
  | .cancelled => .isTrue rfl
  | .endOfRange | .failed .. | .terminal .. | .noProgress .. => .isFalse nofun

/-- The attempt did not fit on the scratch stack. -/
def Attempt.Overflowed (a : Attempt) : Prop :=
  ∃ requested available, a.outcome = .error (.stackOverflow requested available)

instance (a : Attempt) : Decidable a.Overflowed :=
  match h : a.outcome with
  | .error (.stackOverflow requested available) => .isTrue ⟨requested, available, h⟩
  | .ok _ | .error (.moduleNotFound _) | .error (.io ..) | .error (.invalidModule _)
  | .error (.instantiate _) | .error .cancelled | .error (.trap _) | .error (.access _) =>
    .isFalse fun ⟨_, _, h'⟩ => by rw [h] at h'; cases h'

namespace Engine

variable {τ : Type} {parse : ParseCall → Action (Linear τ) Int} {m : Machine (Linear τ)}
  {own : τ → Prop} {f : Text → ParseResult} {rest : Text} {isWord : Char → Bool}

/-- What the attempts at a statement are worth: the answer to all of the remaining text, or else
an overflow and an outcome that ends the scan. -/
structure Faithful (f : Text → ParseResult) (own : τ → Prop) (rest : Text) (limited : Prop)
    (w : Windowed (Linear τ)) : Prop where
  fit : Serviceable own w.machine
  answer : (∃ result, w.outcome = .ok result ∧ result.withoutId = f rest) ∨
    ((∃ a ∈ w.attempts, a.Overflowed) ∨ limited) ∧
      ∀ result, w.outcome = .ok result → result.status.code.needsMoreInput = true

theorem Faithful.cons {limited : Prop} {w : Windowed (Linear τ)} (a : Attempt)
    (h : Faithful f own rest limited w) :
    Faithful f own rest limited { w with attempts := a :: w.attempts } := by
  refine ⟨h.fit, ?_⟩
  rcases h.answer with answered | ⟨overflow, ends⟩
  · exact .inl answered
  · refine .inr ⟨?_, ends⟩
    rcases overflow with ⟨b, member, overflowed⟩ | limited
    · exact .inl ⟨b, .tail _ member, overflowed⟩
    · exact .inr limited

/-- After an overflow nothing but the end of the scan is promised any more. -/
theorem Faithful.of_overflow {before after : Prop} {w : Windowed (Linear τ)} {a : Attempt}
    (overflowed : a.Overflowed) (h : Faithful f own rest after w) :
    Faithful f own rest before { w with attempts := a :: w.attempts } := by
  refine ⟨h.fit, ?_⟩
  rcases h.answer with answered | ⟨-, ends⟩
  · exact .inl answered
  · exact .inr ⟨.inl ⟨a, .head _, overflowed⟩, ends⟩

/-- Every window is answered as all of the remaining text, or asks for more. -/
theorem faithful_parseWithin (rest : Text) (pure : Pure f own parse) (stable : PrefixStable f)
    (limit : Option Nat) (window : Window) (fit : Serviceable own m) :
    Faithful f own rest (limit.isSome = true) ((linear parse).parseWithin rest limit window m) := by
  induction limit, window, m using parseWithin_induct (linear parse) rest with
  | last limit window m outcome m' run final =>
    rw [parseWithin_of_final run final]
    obtain ⟨fit', -, ⟨result, rfl, same⟩ | ⟨requested, available, rfl⟩⟩ :=
      parseStatement_of_pure pure fit run
    · refine ⟨fit', ?_⟩
      rcases stable (Text.takeBytes_isPrefix (window.within limit) rest) with more | same'
      · -- the text ended in the statement, or the window may not grow
        have needs : result.status.code.needsMoreInput = true := by
          rw [← result.status_withoutId, same]
          exact more
        cases limit with
        | some length =>
          refine .inr ⟨.inr rfl, ?_⟩
          rintro _ ⟨⟩
          exact needs
        | none =>
          have whole := shown_of_not_cut needs (final.whole result rfl)
          exact .inl ⟨result, rfl, same.trans (congrArg f whole)⟩
      · exact .inl ⟨result, rfl, same.trans same'⟩
    · refine ⟨fit', .inr ⟨.inl ⟨_, .head _, requested, available, rfl⟩, ?_⟩⟩
      rintro _ ⟨⟩
  | longer limit window m result m' run cut ih =>
    rw [parseWithin_of_cut run cut]
    exact (ih (parseStatement_of_pure pure fit run).1).cons _
  | shorter limit window m requested available m' fits run long ih =>
    rw [parseWithin_of_overflow run long]
    exact (ih (parseStatement_of_pure pure fit run).1).of_overflow ⟨requested, available, rfl⟩

/-- Past a resumable statement all of the remaining text was answered, whatever was seen. -/
theorem answer_of_windowed (pure : Pure f own parse) (stable : PrefixStable f)
    (fit : Serviceable own m) {window window' : Window} {attempts : List Attempt}
    {outcome : Except EngineError ParseResult} {m' : Machine (Linear τ)}
    (run : (linear parse).parseWindowed rest window m = ⟨attempts, outcome, window', m'⟩) :
    Serviceable own m' ∧
      ((∃ result, outcome = .ok result ∧ result.withoutId = f rest) ∨
        (∃ a ∈ attempts, a.Overflowed) ∧
          ∀ result, outcome = .ok result → result.status.code.isTerminal = true) := by
  have faithful := faithful_parseWithin rest pure stable none window fit
  rw [parseWindowed] at run
  rw [run] at faithful
  refine ⟨faithful.fit, ?_⟩
  rcases faithful.answer with answered | ⟨overflow, ends⟩
  · exact .inl answered
  · refine .inr ⟨overflow.resolve_right (by decide), ?_⟩
    intro result eq
    exact StatusCode.isTerminal_of_needsMoreInput (ends result eq)

theorem tokens_of_withoutId {result result' : ParseResult} (same : result.withoutId = result')
    (offset : Nat) (cursor : Position) (source : Text) (attempts attempts' : List Attempt) :
    (Step.mk offset cursor source result attempts).tokens isWord =
      (Step.mk offset cursor source result' attempts').tokens isWord := by
  subst same
  cases h : result.statement <;> simp [Step.tokens, ParseResult.withoutId, h, Statement.tokens]

/-- A scan goes on after the answer to all of the remaining text. -/
theorem answer_of_isResumable (pure : Pure f own parse) (stable : PrefixStable f)
    (fit : Serviceable own m) {window window' : Window} {attempts : List Attempt}
    {result : ParseResult} {m' : Machine (Linear τ)}
    (run : (linear parse).parseWindowed rest window m = ⟨attempts, .ok result, window', m'⟩)
    (resumable : result.status.code.isTerminal ≠ true) : result.withoutId = f rest := by
  rcases (answer_of_windowed pure stable fit run).2 with ⟨_, ⟨⟩, same⟩ | ⟨-, ends⟩
  · exact same
  · exact absurd (ends result rfl) resumable

theorem stepsFrom_of_withoutId {result : ParseResult} (same : result.withoutId = f rest)
    (offset : Nat) (cursor : Position) (more : rest ≠ [])
    (resumable : result.status.code.isTerminal ≠ true)
    (something : Text.takeBytes result.consumed rest ≠ []) :
    Reference.stepsFrom f offset cursor rest =
      let source := Text.takeBytes result.consumed rest
      ⟨offset, cursor, source, f rest, []⟩ ::
        Reference.stepsFrom f (offset + Text.byteLength source) (cursor.walk source)
          (rest.drop source.length) := by
  have consumed : (f rest).consumed = result.consumed := by
    rw [← same, result.consumed_withoutId]
  rw [Reference.stepsFrom_of_step more (by rw [← same]; exact resumable)
    (by rw [consumed]; exact something), consumed]

theorem tokens_scanFrom (pure : Pure f own parse) (stable : PrefixStable f)
    (poll : Machine (Linear τ) → Bool) (window : Window) (offset : Nat) (cursor : Position)
    (fit : Serviceable own m) :
    let s := (linear parse).scanFrom poll window offset cursor rest m
    let tokens := (Reference.stepsFrom f offset cursor rest).flatMap (Step.tokens isWord)
    s.tokens isWord <+: tokens ∧
      (s.stop ≠ .cancelled → (∀ a ∈ s.attempts, ¬ a.Overflowed) → s.tokens isWord = tokens) := by
  induction window, offset, cursor, rest, m using scanFrom_induct (linear parse) poll with
  | nil window offset cursor m =>
    rw [scanFrom_nil, Reference.stepsFrom_nil]
    exact ⟨List.prefix_rfl, fun _ _ => rfl⟩
  | cancelled window offset cursor rest m more cancelled =>
    rw [scanFrom_of_cancelled more cancelled]
    refine ⟨List.nil_prefix, ?_⟩
    intro uncancelled
    exact absurd rfl uncancelled
  | halted window offset cursor rest m attempts outcome window' m' stop more going run halts =>
    rw [scanFrom_of_halts more going run halts]
    refine ⟨List.nil_prefix, ?_⟩
    intro _ none
    rcases (answer_of_windowed pure stable fit run).2 with
      ⟨result, rfl, same⟩ | ⟨⟨a, member, overflow⟩, _⟩
    · cases halts with
      | terminal terminal =>
        rw [Reference.stepsFrom_of_terminal more (by rw [← same]; exact terminal)]
        rfl
      | noProgress resumable nothing =>
        rw [Reference.stepsFrom_of_noProgress more (by rw [← same]; exact nothing)]
        rfl
    · have met : a ∈ (Scan.mk [] stop offset cursor m').attempts := by
        cases halts <;> exact member
      exact absurd overflow (none a met)
  | step window offset cursor rest m attempts result window' m' more going run resumable
      something ih =>
    have same := answer_of_isResumable pure stable fit run resumable
    rw [scanFrom_of_step more going run resumable something,
      stepsFrom_of_withoutId same offset cursor more resumable something]
    obtain ⟨first, equal⟩ := ih (answer_of_windowed pure stable fit run).1
    simp only [Scan.tokens, Scan.attempts, List.flatMap_cons] at first equal ⊢
    rw [tokens_of_withoutId same _ _ _ attempts []]
    refine ⟨(List.prefix_append_right_inj _).2 first, ?_⟩
    intro uncancelled none
    rw [equal uncancelled ?_]
    intro a member
    apply none a
    rw [List.append_assoc]
    exact List.mem_append_right _ member

theorem tokens_scan_through (pure : Pure f own parse) (stable : PrefixStable f)
    (poll : Machine (Linear τ) → Bool) (fit : Serviceable own m) (text : Text) (range : Range)
    (isWord : Char → Bool) :
    let s := (linear parse).scan poll text range m
    s.tokens isWord <+: Reference.tokens isWord f text range ∧
      (s.stop ≠ .cancelled → (∀ a ∈ s.attempts, ¬ a.Overflowed) →
        s.tokens isWord = Reference.tokens isWord f text range) := by
  simp only [scan, Reference.tokens, Reference.steps]
  split
  · exact ⟨List.prefix_rfl, fun _ _ => rfl⟩
  · exact tokens_scanFrom pure stable poll .initial _ range.start fit

/-- Windowing is sound, and the grammar has an engine that it is sound for. A scan that is asked
to stop before its end has the tokens up to there. -/
theorem scan_through_windows (isWord : Char → Bool) :
    (∀ {τ : Type} {f : Text → ParseResult} {own : τ → Prop}
      {parse : ParseCall → Action (Linear τ) Int}, Pure f own parse → PrefixStable f →
      ∀ m, Serviceable own m → ∀ poll text range,
        let s := (linear parse).scan poll text range m
        s.tokens isWord <+: Reference.tokens isWord f text range ∧
          ((∀ m, poll m ≠ true) → (∀ a ∈ s.attempts, ¬ a.Overflowed) →
            s.tokens isWord = Reference.tokens isWord f text range)) ∧
    Pure Grammar.result (fun s => s.faults = {}) Grammar.engine.parse ∧
      PrefixStable Grammar.result := by
  refine ⟨?_, Grammar.pure_engine, Grammar.prefixStable_result⟩
  intro τ f own parse pure stable m fit poll text range
  obtain ⟨first, equal⟩ := tokens_scan_through pure stable poll fit text range isWord
  exact ⟨first, fun never none => equal (stop_scan_ne_cancelled never text range m) none⟩

/-- A scan by the grammar with room for all of its text. -/
theorem scan_through_windows_of_grammar :
    let m := Linear.machine 96 96 ({} : Grammar.State)
    let text := "enum Ä;".toList
    let s := (linear Grammar.engine.parse).scan (fun _ => false) text (wholeRange text) m
    Serviceable (fun s => s.faults = {}) m ∧
      (∀ a ∈ s.attempts, ¬ a.Overflowed) ∧
      s.tokens Text.isWordChar =
        Reference.tokens Text.isWordChar Grammar.result text (wholeRange text) := by
  intro m text s
  have fit : Serviceable (fun s => s.faults = {}) m := ⟨Linear.sound_machine _ (by decide), rfl⟩
  have none : ∀ a ∈ s.attempts, ¬ a.Overflowed := by decide +kernel
  exact ⟨fit, none,
    ((scan_through_windows Text.isWordChar).1 Grammar.pure_engine Grammar.prefixStable_result m fit
      (fun _ => false) text (wholeRange text)).2 (fun _ => Bool.false_ne_true) none⟩

end Engine

end SchemaHighlighter
