import SchemaHighlighter.Proofs.Engine.Capacity
import SchemaHighlighter.Proofs.Engine.Terminator
import SchemaHighlighter.Proofs.Highlight.Retries

/-! # Small scratch stacks

A statement that half the capacity of the stack has room for is parsed in the end, however much
text follows it. What overflows is longer than the capacity, so half of it is not below half the
capacity, and the cut takes no more than three bytes off. The window of the attempts from then on
is that half, and the statement is answered within it or the input overflows again. -/
namespace SchemaHighlighter

/-- Half the capacity is enough for the answer to this statement of a text that goes on to byte
`stop`, also when a cut loses three bytes of it. -/
def Step.Small (f : Text → ParseResult) (capacity : Nat) (text : Text) (stop : Nat) (s : Step) :
    Prop :=
  ∃ n ≤ (capacity + 1) / 2 - 3,
    AnsweredFrom f n (Text.dropBytes s.offset (Text.takeBytes stop text))

namespace Engine

variable {τ : Type} {parse : ParseCall → Action (Linear τ) Int} {m : Machine (Linear τ)}
  {own : τ → Prop} {f : Text → ParseResult} {text rest : Text} {capacity n : Nat}
  {limit : Option Nat} {window : Window} {isWord : Char → Bool}

/-- A limit, if there is one, is half of something that did overflow. -/
structure Roomy (capacity : Nat) (rest : Text) (limit : Option Nat) (window : Window) : Prop where
  settled : window.Settled limit
  half : ∀ l ∈ limit, (capacity + 1) / 2 ≤ l
  inside : ∀ l ∈ limit, l ≤ Text.byteLength rest

theorem roomy_none (capacity : Nat) (rest : Text) (window : Window) :
    Roomy capacity rest none window := by
  refine ⟨window.settled_none, ?_, ?_⟩
  · rintro _ ⟨⟩
  · rintro _ ⟨⟩

theorem Roomy.cap (h : Roomy capacity rest limit window)
    (overflowed : capacity < Text.byteLength (shown rest limit window))
    (fits : 32 ≤ Text.byteLength (shown rest limit window) / 2) :
    Roomy capacity rest (some (Text.byteLength (shown rest limit window) / 2))
      (window.cap _ fits) := by
  have part : Text.byteLength (shown rest limit window) ≤ Text.byteLength rest :=
    Text.byteLength_takeBytes_le_byteLength _ rest
  refine ⟨settled_cap h.settled fits, ?_, ?_⟩
  · rintro _ ⟨⟩
    omega
  · rintro _ ⟨⟩
    omega

/-- Once there is a limit the window holds half the capacity but for three bytes. -/
theorem Roomy.le_byteLength_shown {l : Nat} (h : Roomy capacity rest (some l) window)
    (short : n ≤ (capacity + 1) / 2 - 3) : n ≤ Text.byteLength (shown rest (some l) window) := by
  have half := h.half l rfl
  have lost := Text.le_byteLength_takeBytes rest (h.inside l rfl)
  rw [shown, h.settled.within, h.settled l rfl]
  omega

/-- What the attempts at a statement are worth with this capacity. -/
structure Served (parse : ParseCall → Action (Linear τ) Int) (own : τ → Prop) (capacity : Nat)
    (f : Text → ParseResult) (rest : Text) (w : Windowed (Linear τ)) : Prop where
  ready : Ready parse own capacity w.machine
  fits : ∀ requested available, w.outcome ≠ .error (.stackOverflow requested available)
  answer : ∀ n ≤ (capacity + 1) / 2 - 3, AnsweredFrom f n rest →
    ∃ result, w.outcome = .ok result ∧ result.withoutId = f rest

theorem served_parseWithin (pure : Pure f own parse) (stable : PrefixStable f)
    (large : Window.smallest ≤ capacity) (ready : Ready parse own capacity m)
    (roomy : Roomy capacity rest limit window) :
    Served parse own capacity f rest ((linear parse).parseWithin rest limit window m) := by
  induction limit, window, m using parseWithin_induct (linear parse) rest with
  | last limit window m outcome m' run final =>
    rw [parseWithin_of_final run final]
    obtain ⟨ready', ⟨within, result, rfl, same⟩ | ⟨beyond, requested, available, rfl⟩⟩ :=
      parseStatement_of_ready pure ready run
    · refine ⟨ready', by rintro _ _ ⟨⟩, ?_⟩
      intro n short answered
      refine ⟨result, rfl, ?_⟩
      have begins := Text.takeBytes_isPrefix (window.within limit) rest
      rcases stable begins with needs | same'
      · -- a request for more is final at the end of the text, and never once there is a limit
        cases limit with
        | none =>
          rw [← same] at needs
          exact same.trans (congrArg f (shown_of_not_cut needs (final.whole result rfl)))
        | some l =>
          rw [answered begins (roomy.le_byteLength_shown short)] at needs
          cases needs
      · exact same.trans same'
    · -- what overflowed is longer than the capacity, and so not final
      have short := final.short requested available rfl
      omega
  | longer limit window m result m' run cut ih =>
    rw [parseWithin_of_cut run cut]
    obtain rfl := roomy.settled.eq_none_of_canGrow cut.2.1
    have served := ih (parseStatement_of_ready pure ready run).1 (roomy_none capacity rest _)
    exact ⟨served.ready, served.fits, served.answer⟩
  | shorter limit window m requested available m' fits run long ih =>
    rw [parseWithin_of_overflow run long]
    obtain ⟨ready', ⟨_, _, ⟨⟩, _⟩ | ⟨beyond, _⟩⟩ := parseStatement_of_ready pure ready run
    have served := ih ready' (roomy.cap beyond fits)
    exact ⟨served.ready, served.fits, served.answer⟩

theorem served_of_parseWindowed (pure : Pure f own parse) (stable : PrefixStable f)
    (large : Window.smallest ≤ capacity) (ready : Ready parse own capacity m)
    {window' : Window} {attempts : List Attempt} {outcome : Except EngineError ParseResult}
    {m' : Machine (Linear τ)}
    (run : (linear parse).parseWindowed rest window m = ⟨attempts, outcome, window', m'⟩) :
    Served parse own capacity f rest ⟨attempts, outcome, window', m'⟩ := by
  rw [← run]
  exact served_parseWithin pure stable large ready (roomy_none capacity rest window)

/-- A scan never ends because the stack is too small. -/
theorem stop_scanFrom_of_ready (pure : Pure f own parse) (stable : PrefixStable f)
    (large : Window.smallest ≤ capacity) (poll : Machine (Linear τ) → Bool) (window : Window)
    (offset : Nat) (cursor : Position) (ready : Ready parse own capacity m)
    (requested available : Nat) (tried : List Attempt) :
    ((linear parse).scanFrom poll window offset cursor rest m).stop ≠
      .failed (.stackOverflow requested available) tried := by
  induction window, offset, cursor, rest, m using scanFrom_induct (linear parse) poll with
  | nil window offset cursor m =>
    rw [scanFrom_nil]
    rintro ⟨⟩
  | cancelled window offset cursor rest m more cancelled =>
    rw [scanFrom_of_cancelled more cancelled]
    rintro ⟨⟩
  | halted window offset cursor rest m attempts outcome window' m' stop more going run halts =>
    rw [scanFrom_of_halts more going run halts]
    rintro ⟨⟩
    cases halts
    exact (served_of_parseWindowed pure stable large ready run).fits _ _ rfl
  | step window offset cursor rest m attempts result window' m' more going run resumable
      something ih =>
    rw [scanFrom_of_step more going run resumable something]
    exact ih (served_of_parseWindowed pure stable large ready run).ready

/-- Where only small statements are left to find, a scan that ends leaves none. -/
theorem Served.stepsFrom_eq_nil {w : Windowed (Linear τ)}
    (served : Served parse own capacity f rest w) (more : rest ≠ []) {offset stop : Nat}
    {cursor : Position} (left : Text.slice? text offset stop = some rest)
    (small : ∀ step ∈ Reference.stepsFrom f offset cursor rest, step.Small f capacity text stop)
    (ends : ∀ result, w.outcome = .ok result → result.status.code.isTerminal = true ∨
      Text.takeBytes result.consumed rest = []) :
    Reference.stepsFrom f offset cursor rest = [] := by
  by_cases terminal : (f rest).status.code.isTerminal = true
  · exact Reference.stepsFrom_of_terminal more terminal
  by_cases nothing : Text.takeBytes (f rest).consumed rest = []
  · exact Reference.stepsFrom_of_noProgress more nothing
  exfalso
  rw [Reference.stepsFrom_of_step more terminal nothing] at small
  obtain ⟨n, short, answered⟩ := small _ (.head _)
  rw [← Text.eq_of_slice? left] at answered
  obtain ⟨result, eq, same⟩ := served.answer n short answered
  rw [← same] at terminal nothing
  rcases ends result eq with terminal' | nothing'
  · exact terminal terminal'
  · exact nothing nothing'

theorem tokens_scanFrom_of_small (pure : Pure f own parse) (stable : PrefixStable f)
    (large : Window.smallest ≤ capacity) (poll : Machine (Linear τ) → Bool) (window : Window)
    {offset stop : Nat} {cursor : Position} (ready : Ready parse own capacity m)
    (left : Text.slice? text offset stop = some rest)
    (small : ∀ step ∈ Reference.stepsFrom f offset cursor rest, step.Small f capacity text stop)
    (uncancelled : ((linear parse).scanFrom poll window offset cursor rest m).stop ≠ .cancelled) :
    ((linear parse).scanFrom poll window offset cursor rest m).tokens isWord =
      (Reference.stepsFrom f offset cursor rest).flatMap (Step.tokens isWord) := by
  induction window, offset, cursor, rest, m using scanFrom_induct (linear parse) poll with
  | nil window offset cursor m =>
    rw [scanFrom_nil, Reference.stepsFrom_nil]
    rfl
  | cancelled window offset cursor rest m more cancelled =>
    rw [scanFrom_of_cancelled more cancelled] at uncancelled
    exact absurd rfl uncancelled
  | halted window offset cursor rest m attempts outcome window' m' stop more going run halts =>
    have served := served_of_parseWindowed pure stable large ready run
    rw [scanFrom_of_halts more going run halts, served.stepsFrom_eq_nil more left small ?_]
    · rfl
    · rintro result rfl
      cases halts with
      | terminal terminal => exact .inl terminal
      | noProgress resumable nothing => exact .inr nothing
  | step window offset cursor rest m attempts result window' m' more going run resumable
      something ih =>
    have served := served_of_parseWindowed pure stable large ready run
    have same := answer_of_isResumable pure stable ready.fit run resumable
    rw [stepsFrom_of_withoutId same offset cursor more resumable something] at small ⊢
    rw [scanFrom_of_step more going run resumable something] at uncancelled ⊢
    simp only [Scan.tokens, List.flatMap_cons] at ih ⊢
    rw [tokens_of_withoutId same _ _ _ attempts []]
    have begins := Text.takeBytes_isPrefix result.consumed rest
    rw [ih served.ready (Text.slice?_drop left begins) ?_ uncancelled]
    intro step later
    exact small step (.tail _ later)

theorem stop_scan_of_ready (pure : Pure f own parse) (stable : PrefixStable f)
    (large : Window.smallest ≤ capacity) (poll : Machine (Linear τ) → Bool) (text : Text)
    (range : Range) (ready : Ready parse own capacity m) (requested available : Nat)
    (tried : List Attempt) :
    ((linear parse).scan poll text range m).stop ≠
      .failed (.stackOverflow requested available) tried := by
  rw [scan]
  split
  · rintro ⟨⟩
  · exact stop_scanFrom_of_ready pure stable large poll .initial _ range.start ready _ _ tried

theorem tokens_scan_of_small (pure : Pure f own parse) (stable : PrefixStable f)
    (large : Window.smallest ≤ capacity) (poll : Machine (Linear τ) → Bool) {range : Range}
    (ready : Ready parse own capacity m)
    (small : ∀ step ∈ Reference.steps f text range,
      step.Small f capacity text (Text.offset text range.stop))
    (uncancelled : ((linear parse).scan poll text range m).stop ≠ .cancelled) :
    ((linear parse).scan poll text range m).tokens isWord =
      Reference.tokens isWord f text range := by
  simp only [scan, Reference.tokens, Reference.steps] at small uncancelled ⊢
  split at small
  case isTrue empty =>
    rw [if_pos empty, if_pos empty]
    rfl
  case isFalse nonempty =>
    rw [if_neg nonempty] at uncancelled
    rw [if_neg nonempty, if_neg nonempty]
    exact tokens_scanFrom_of_small pure stable large poll .initial ready
      (Engine.slice?_range text range) small uncancelled

/-- A small stack loses nothing as long as the statements are small. For the grammar that is told
by the bytes up to the end of the statement. A scan that is asked to stop is not promised the
tokens after that. -/
theorem scan_within_capacity (isWord : Char → Bool) :
    (∀ {τ : Type} {f : Text → ParseResult} {own : τ → Prop}
      {parse : ParseCall → Action (Linear τ) Int} {capacity : Nat}, Pure f own parse →
      PrefixStable f → 64 ≤ capacity → ∀ m, Serviceable own m →
      (linear parse).HasCapacity capacity m → ∀ poll text range,
        let s := (linear parse).scan poll text range m
        (∀ requested available attempts,
          s.stop ≠ .failed (.stackOverflow requested available) attempts) ∧
        ((∀ step ∈ Reference.steps f text range,
            step.Small f capacity text (Text.offset text range.stop)) →
          (∀ m, poll m ≠ true) → s.tokens isWord = Reference.tokens isWord f text range)) ∧
    ∀ text, (Grammar.result text).status.code.isResumable = true →
      ∃ before last after, text = before ++ last :: after ∧ Grammar.Terminates before last ∧
        (Grammar.result text).consumed = Text.byteLength before + 1 ∧
        AnsweredFrom Grammar.result (Text.byteLength before + 1) text := by
  refine ⟨?_, fun text => Grammar.answeredFrom_of_isResumable⟩
  intro τ f own parse capacity pure stable large m fit bound poll text range
  have ready : Ready parse own capacity m := ⟨fit, bound⟩
  refine ⟨stop_scan_of_ready pure stable large poll text range ready, ?_⟩
  intro small never
  exact tokens_scan_of_small pure stable large poll ready small
    (stop_scan_ne_cancelled never text range m)

theorem small_of_consumed {step : Step} {stop : Nat}
    (resumable : (Grammar.result (Text.dropBytes step.offset
      (Text.takeBytes stop text))).status.code.isResumable = true)
    (short : (Grammar.result (Text.dropBytes step.offset
      (Text.takeBytes stop text))).consumed ≤ (capacity + 1) / 2 - 3) :
    step.Small Grammar.result capacity text stop := by
  obtain ⟨before, last, after, -, -, consumed, answered⟩ :=
    Grammar.answeredFrom_of_isResumable resumable
  rw [consumed] at short
  exact ⟨_, short, answered⟩

/-- Twelve statements that are longer than the stack together, and far shorter each. -/
theorem scan_within_capacity_of_grammar :
    let m := Linear.machine 160 160 ({} : Grammar.State)
    let text := (List.replicate 12 "enum E;".toList).flatten
    let s := (linear Grammar.engine.parse).scan (fun _ => false) text (wholeRange text) m
    (linear Grammar.engine.parse).HasCapacity 79 m ∧ 79 < Text.byteLength text ∧
      (∀ step ∈ Reference.steps Grammar.result text (wholeRange text),
        step.Small Grammar.result 79 text (Text.offset text (wholeRange text).stop)) ∧
      s.tokens Text.isWordChar =
        Reference.tokens Text.isWordChar Grammar.result text (wholeRange text) := by
  intro m text s
  have bound : (linear Grammar.engine.parse).HasCapacity 79 m :=
    hasCapacity_machine Grammar.pure_engine (by decide) (by decide) (by decide) rfl
  have fit : Serviceable (fun s => s.faults = {}) m := ⟨Linear.sound_machine _ (by decide), rfl⟩
  have small : ∀ step ∈ Reference.steps Grammar.result text (wholeRange text),
      step.Small Grammar.result 79 text (Text.offset text (wholeRange text).stop) := by
    have each : ∀ step ∈ Reference.steps Grammar.result text (wholeRange text),
        let rest := Text.dropBytes step.offset
          (Text.takeBytes (Text.offset text (wholeRange text).stop) text)
        (Grammar.result rest).status.code.isResumable = true ∧
          (Grammar.result rest).consumed ≤ (79 + 1) / 2 - 3 := by decide +kernel
    intro step member
    exact small_of_consumed (each step member).1 (each step member).2
  exact ⟨bound, by decide, small,
    ((scan_within_capacity Text.isWordChar).1 Grammar.pure_engine Grammar.prefixStable_result
      (by decide) m fit bound (fun _ => false) text (wholeRange text)).2 small
        fun _ => Bool.false_ne_true⟩

end Engine

end SchemaHighlighter
