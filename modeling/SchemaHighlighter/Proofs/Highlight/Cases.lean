import SchemaHighlighter.Highlight.Reference

/-! # The cases of a scan

What one attempt at a statement, and one turn of the scan, come to in each case. -/
namespace SchemaHighlighter

namespace Engine

variable {σ : Type} {e : Engine σ} {rest : Text} {limit : Option Nat} {window window' : Window}
  {m m' : Machine σ} {result : ParseResult} {requested available : Nat} {error : EngineError}

/-- What the window holds of `rest`. -/
abbrev shown (rest : Text) (limit : Option Nat) (window : Window) : Text :=
  Text.takeBytes (window.within limit) rest

/-- A statement that the window cut short is tried again with a larger window. -/
def Cut (rest : Text) (limit : Option Nat) (window : Window) (result : ParseResult) : Prop :=
  result.status.code.needsMoreInput = true ∧ window.canGrow limit = true ∧
    rest.drop (shown rest limit window).length ≠ []

/-- Without a limit only the end of the text keeps a window from growing. -/
theorem shown_of_not_cut (needs : result.status.code.needsMoreInput = true)
    (whole : ¬ Cut rest none window result) : shown rest none window = rest := by
  have nothing : rest.drop (shown rest none window).length = [] :=
    Decidable.not_not.1 fun more => whole ⟨needs, rfl, more⟩
  have all := Text.takeBytes_append_dropBytes (window.within none) rest
  rwa [Text.dropBytes_eq_drop, nothing, List.append_nil] at all

theorem parseWithin_of_cut
    (run : e.parseStatement (shown rest limit window) m = (.ok result, m'))
    (cut : Cut rest limit window result) :
    e.parseWithin rest limit window m =
      let next := e.parseWithin rest limit window.double m'
      { next with
        attempts := ⟨Text.byteLength (shown rest limit window), .ok result⟩ :: next.attempts } := by
  unfold Cut at cut
  rw [parseWithin]
  simp only [run, dif_pos cut]

theorem parseWithin_of_not_cut
    (run : e.parseStatement (shown rest limit window) m = (.ok result, m'))
    (whole : ¬ Cut rest limit window result) :
    e.parseWithin rest limit window m =
      ⟨[⟨Text.byteLength (shown rest limit window), .ok result⟩], .ok result, window, m'⟩ := by
  unfold Cut at whole
  rw [parseWithin]
  simp only [run, dif_neg whole]

theorem parseWithin_of_overflow
    (run : e.parseStatement (shown rest limit window) m =
      (.error (.stackOverflow requested available), m'))
    (long : Window.smallest < Text.byteLength (shown rest limit window)) :
    e.parseWithin rest limit window m =
      let length := Text.byteLength (shown rest limit window)
      let next := e.parseWithin rest (some (length / 2))
        (window.cap (length / 2) (by simp only [Window.smallest] at long; omega)) m'
      { next with
        attempts := ⟨length, .error (.stackOverflow requested available)⟩ :: next.attempts } := by
  rw [parseWithin]
  simp only [run, dif_pos long]

theorem parseWithin_of_short_overflow
    (run : e.parseStatement (shown rest limit window) m =
      (.error (.stackOverflow requested available), m'))
    (short : ¬ Window.smallest < Text.byteLength (shown rest limit window)) :
    e.parseWithin rest limit window m =
      ⟨[⟨Text.byteLength (shown rest limit window),
          .error (.stackOverflow requested available)⟩],
        .error (.stackOverflow requested available), window, m'⟩ := by
  rw [parseWithin]
  simp only [run, dif_neg short]

theorem parseWithin_of_error
    (run : e.parseStatement (shown rest limit window) m = (.error error, m'))
    (other : ∀ requested available, error ≠ .stackOverflow requested available) :
    e.parseWithin rest limit window m =
      ⟨[⟨Text.byteLength (shown rest limit window), .error error⟩], .error error, window, m'⟩ := by
  rw [parseWithin]
  cases error with
  | stackOverflow requested available => exact absurd rfl (other requested available)
  | _ => simp only [run]

/-- The outcome of an attempt after which no other is made. -/
structure Final (rest : Text) (limit : Option Nat) (window : Window)
    (outcome : Except EngineError ParseResult) : Prop where
  whole : ∀ result, outcome = .ok result → ¬ Cut rest limit window result
  short : ∀ requested available, outcome = .error (.stackOverflow requested available) →
    ¬ Window.smallest < Text.byteLength (shown rest limit window)

theorem parseWithin_of_final {outcome : Except EngineError ParseResult}
    (run : e.parseStatement (shown rest limit window) m = (outcome, m'))
    (final : Final rest limit window outcome) :
    e.parseWithin rest limit window m =
      ⟨[⟨Text.byteLength (shown rest limit window), outcome⟩], outcome, window, m'⟩ := by
  cases outcome with
  | ok result => exact parseWithin_of_not_cut run (final.whole result rfl)
  | error error =>
    cases error with
    | stackOverflow requested available =>
      exact parseWithin_of_short_overflow run (final.short requested available rfl)
    | _ => exact parseWithin_of_error run (by rintro _ _ ⟨⟩)

/-- The attempts at a statement by cases: the last one, one that is followed by a longer, and one
that is followed by a shorter. -/
theorem parseWithin_induct (e : Engine σ) (rest : Text)
    {motive : Option Nat → Window → Machine σ → Prop}
    (last : ∀ limit window m outcome m',
      e.parseStatement (shown rest limit window) m = (outcome, m') →
      Final rest limit window outcome → motive limit window m)
    (longer : ∀ limit window m result m',
      e.parseStatement (shown rest limit window) m = (.ok result, m') →
      Cut rest limit window result → motive limit window.double m' → motive limit window m)
    (shorter : ∀ limit (window : Window) m requested available m'
      (fits : 32 ≤ Text.byteLength (shown rest limit window) / 2),
      e.parseStatement (shown rest limit window) m =
        (.error (.stackOverflow requested available), m') →
      Window.smallest < Text.byteLength (shown rest limit window) →
      motive (some (Text.byteLength (shown rest limit window) / 2)) (window.cap _ fits) m' →
      motive limit window m)
    (limit : Option Nat) (window : Window) (m : Machine σ) : motive limit window m := by
  induction limit, window, m using parseWithin.induct e rest with
  | case1 limit window m input result m' run cut ih =>
    exact longer limit window m result m' run cut ih
  | case2 limit window m input result m' run whole =>
    refine last limit window m (.ok result) m' run ⟨?_, ?_⟩
    · rintro _ ⟨⟩
      exact whole
    · rintro _ _ ⟨⟩
  | case3 limit window m input length requested available m' run long ih =>
    exact shorter limit window m requested available m' _ run long ih
  | case4 limit window m input length requested available m' run short =>
    refine last limit window m _ m' run ⟨?_, ?_⟩
    · rintro _ ⟨⟩
    · rintro _ _ ⟨⟩
      exact short
  | case5 limit window m input error m' other run =>
    refine last limit window m _ m' run ⟨?_, ?_⟩
    · rintro _ ⟨⟩
    · rintro requested available ⟨⟩
      exact absurd rfl (other requested available)

/-- Calls of the parser one after another, each on a beginning of `rest`. -/
inductive Calls (e : Engine σ) (rest : Text) :
    Machine σ → List Attempt → Machine σ → Prop
  | none (m : Machine σ) : Calls e rest m [] m
  | call {m m' m'' : Machine σ} {input : Text} {outcome : Except EngineError ParseResult}
      {later : List Attempt} :
      input <+: rest → e.parseStatement input m = (outcome, m') → Calls e rest m' later m'' →
        Calls e rest m (⟨Text.byteLength input, outcome⟩ :: later) m''

theorem calls_parseWithin (e : Engine σ) (rest : Text) (limit : Option Nat) (window : Window)
    (m : Machine σ) :
    e.Calls rest m (e.parseWithin rest limit window m).attempts
      (e.parseWithin rest limit window m).machine := by
  induction limit, window, m using parseWithin_induct e rest with
  | last limit window m outcome m' run final =>
    rw [parseWithin_of_final run final]
    exact .call (Text.takeBytes_isPrefix _ rest) run (.none m')
  | longer limit window m result m' run cut further =>
    rw [parseWithin_of_cut run cut]
    exact .call (Text.takeBytes_isPrefix _ rest) run further
  | shorter limit window m requested available m' fits run long further =>
    rw [parseWithin_of_overflow run long]
    exact .call (Text.takeBytes_isPrefix _ rest) run further

variable {poll : Machine σ → Bool} {offset : Nat} {cursor : Position} {attempts : List Attempt}

theorem scanFrom_nil :
    e.scanFrom poll window offset cursor [] m = ⟨[], .endOfRange, offset, cursor, m⟩ := by
  rw [scanFrom, if_pos rfl]

theorem scanFrom_of_cancelled (more : rest ≠ []) (cancelled : poll m = true) :
    e.scanFrom poll window offset cursor rest m = ⟨[], .cancelled, offset, cursor, m⟩ := by
  rw [scanFrom, if_neg more, if_pos cancelled]

theorem scanFrom_of_failed (more : rest ≠ []) (going : poll m ≠ true)
    (run : e.parseWindowed rest window m = ⟨attempts, .error error, window', m'⟩) :
    e.scanFrom poll window offset cursor rest m =
      ⟨[], .failed error attempts, offset, cursor, m'⟩ := by
  rw [scanFrom, if_neg more, if_neg going, run]

theorem scanFrom_of_terminal (more : rest ≠ []) (going : poll m ≠ true)
    (run : e.parseWindowed rest window m = ⟨attempts, .ok result, window', m'⟩)
    (terminal : result.status.code.isTerminal = true) :
    e.scanFrom poll window offset cursor rest m =
      ⟨[], .terminal result.status attempts, offset, cursor, m'⟩ := by
  rw [scanFrom, if_neg more, if_neg going, run]
  simp only [if_pos terminal]

theorem scanFrom_of_noProgress (more : rest ≠ []) (going : poll m ≠ true)
    (run : e.parseWindowed rest window m = ⟨attempts, .ok result, window', m'⟩)
    (resumable : result.status.code.isTerminal ≠ true)
    (nothing : Text.takeBytes result.consumed rest = []) :
    e.scanFrom poll window offset cursor rest m =
      ⟨[], .noProgress attempts, offset, cursor, m'⟩ := by
  rw [scanFrom, if_neg more, if_neg going, run]
  simp only [if_neg resumable, if_pos nothing]

theorem scanFrom_of_step (more : rest ≠ []) (going : poll m ≠ true)
    (run : e.parseWindowed rest window m = ⟨attempts, .ok result, window', m'⟩)
    (resumable : result.status.code.isTerminal ≠ true)
    (something : Text.takeBytes result.consumed rest ≠ []) :
    e.scanFrom poll window offset cursor rest m =
      let source := Text.takeBytes result.consumed rest
      let next := e.scanFrom poll window' (offset + Text.byteLength source) (cursor.walk source)
        (rest.drop source.length) m'
      { next with steps := ⟨offset, cursor, source, result, attempts⟩ :: next.steps } := by
  rw [scanFrom, if_neg more, if_neg going, run]
  simp only [if_neg resumable, if_neg something]

/-- A scan ends with the attempts at the first statement of `rest`. -/
inductive Halts (rest : Text) (attempts : List Attempt) :
    Except EngineError ParseResult → Stop → Prop
  | failed (error : EngineError) : Halts rest attempts (.error error) (.failed error attempts)
  | terminal {result : ParseResult} (terminal : result.status.code.isTerminal = true) :
    Halts rest attempts (.ok result) (.terminal result.status attempts)
  | noProgress {result : ParseResult} (resumable : result.status.code.isTerminal ≠ true)
    (nothing : Text.takeBytes result.consumed rest = []) :
    Halts rest attempts (.ok result) (.noProgress attempts)

theorem scanFrom_of_halts {outcome : Except EngineError ParseResult} {stop : Stop}
    (more : rest ≠ []) (going : poll m ≠ true)
    (run : e.parseWindowed rest window m = ⟨attempts, outcome, window', m'⟩)
    (halts : Halts rest attempts outcome stop) :
    e.scanFrom poll window offset cursor rest m = ⟨[], stop, offset, cursor, m'⟩ := by
  cases halts with
  | failed => exact scanFrom_of_failed more going run
  | terminal terminal => exact scanFrom_of_terminal more going run terminal
  | noProgress resumable nothing => exact scanFrom_of_noProgress more going run resumable nothing

/-- A scan by cases: it is at the end of its range, it is asked to stop, the next statement ends
it, or it goes on after that statement. -/
theorem scanFrom_induct (e : Engine σ) (poll : Machine σ → Bool)
    {motive : Window → Nat → Position → Text → Machine σ → Prop}
    (nil : ∀ window offset cursor m, motive window offset cursor [] m)
    (cancelled : ∀ window offset cursor rest m, rest ≠ [] → poll m = true →
      motive window offset cursor rest m)
    (halted : ∀ window offset cursor rest m attempts outcome window' m' stop, rest ≠ [] →
      poll m ≠ true → e.parseWindowed rest window m = ⟨attempts, outcome, window', m'⟩ →
      Halts rest attempts outcome stop → motive window offset cursor rest m)
    (step : ∀ window offset cursor rest m attempts result window' m', rest ≠ [] →
      poll m ≠ true → e.parseWindowed rest window m = ⟨attempts, .ok result, window', m'⟩ →
      result.status.code.isTerminal ≠ true → Text.takeBytes result.consumed rest ≠ [] →
      motive window' (offset + Text.byteLength (Text.takeBytes result.consumed rest))
        (cursor.walk (Text.takeBytes result.consumed rest))
        (rest.drop (Text.takeBytes result.consumed rest).length) m' →
      motive window offset cursor rest m)
    (window : Window) (offset : Nat) (cursor : Position) (rest : Text) (m : Machine σ) :
    motive window offset cursor rest m := by
  induction window, offset, cursor, rest, m using scanFrom.induct e poll with
  | case1 window offset cursor m => exact nil window offset cursor m
  | case2 window offset cursor rest m more asked =>
    exact cancelled window offset cursor rest m more asked
  | case3 window offset cursor rest m more going attempts error window' m' run =>
    exact halted window offset cursor rest m _ _ _ _ _ more going run (.failed error)
  | case4 window offset cursor rest m more going attempts result window' m' run terminal =>
    exact halted window offset cursor rest m _ _ _ _ _ more going run (.terminal terminal)
  | case5 window offset cursor rest m more going attempts result window' m' run resumable source
      nothing =>
    exact halted window offset cursor rest m _ _ _ _ _ more going run
      (.noProgress resumable nothing)
  | case6 window offset cursor rest m more going attempts result window' m' run resumable source
      something ih =>
    exact step window offset cursor rest m _ _ _ _ more going run resumable something ih

/-- A scan that nobody asks to stop goes on to an end of its own. -/
theorem stop_scanFrom_ne_cancelled (never : ∀ m, poll m ≠ true) (window : Window) (offset : Nat)
    (cursor : Position) (rest : Text) (m : Machine σ) :
    (e.scanFrom poll window offset cursor rest m).stop ≠ .cancelled := by
  induction window, offset, cursor, rest, m using scanFrom_induct e poll with
  | nil window offset cursor m =>
    rw [scanFrom_nil]
    rintro ⟨⟩
  | cancelled window offset cursor rest m more cancelled => exact absurd cancelled (never m)
  | halted window offset cursor rest m attempts outcome window' m' stop more going run halts =>
    rw [scanFrom_of_halts more going run halts]
    rintro ⟨⟩
    cases halts
  | step window offset cursor rest m attempts result window' m' more going run resumable
      something ih =>
    rw [scanFrom_of_step more going run resumable something]
    exact ih

theorem stop_scan_ne_cancelled (never : ∀ m, poll m ≠ true) (text : Text) (range : Range)
    (m : Machine σ) : (e.scan poll text range m).stop ≠ .cancelled := by
  rw [scan]
  split
  · rintro ⟨⟩
  · exact stop_scanFrom_ne_cancelled never _ _ _ _ m

end Engine

namespace Reference

variable {parse : Text → ParseResult} {offset : Nat} {cursor : Position} {rest : Text}

theorem stepsFrom_nil : stepsFrom parse offset cursor [] = [] := by
  rw [stepsFrom, if_pos rfl]

theorem stepsFrom_of_terminal (more : rest ≠ [])
    (terminal : (parse rest).status.code.isTerminal = true) :
    stepsFrom parse offset cursor rest = [] := by
  rw [stepsFrom, if_neg more]
  simp only [if_pos (Or.inl terminal)]

theorem stepsFrom_of_noProgress (more : rest ≠ [])
    (nothing : Text.takeBytes (parse rest).consumed rest = []) :
    stepsFrom parse offset cursor rest = [] := by
  rw [stepsFrom, if_neg more]
  simp only [if_pos (Or.inr nothing)]

theorem stepsFrom_of_step (more : rest ≠ [])
    (resumable : (parse rest).status.code.isTerminal ≠ true)
    (something : Text.takeBytes (parse rest).consumed rest ≠ []) :
    stepsFrom parse offset cursor rest =
      let source := Text.takeBytes (parse rest).consumed rest
      ⟨offset, cursor, source, parse rest, []⟩ ::
        stepsFrom parse (offset + Text.byteLength source) (cursor.walk source)
          (rest.drop source.length) := by
  rw [stepsFrom, if_neg more]
  simp only [if_neg (not_or.2 ⟨resumable, something⟩)]

/-- A scan without windows by cases: it is over, the next statement ends it, or it goes on after
that statement. -/
theorem stepsFrom_induct (parse : Text → ParseResult) {motive : Nat → Position → Text → Prop}
    (nil : ∀ offset cursor, motive offset cursor [])
    (halted : ∀ offset cursor rest, rest ≠ [] →
      (parse rest).status.code.isTerminal = true ∨
        Text.takeBytes (parse rest).consumed rest = [] → motive offset cursor rest)
    (step : ∀ offset cursor rest, rest ≠ [] → (parse rest).status.code.isTerminal ≠ true →
      Text.takeBytes (parse rest).consumed rest ≠ [] →
      motive (offset + Text.byteLength (Text.takeBytes (parse rest).consumed rest))
        (cursor.walk (Text.takeBytes (parse rest).consumed rest))
        (rest.drop (Text.takeBytes (parse rest).consumed rest).length) →
      motive offset cursor rest)
    (offset : Nat) (cursor : Position) (rest : Text) : motive offset cursor rest := by
  refine stepsFrom.induct parse motive nil ?_ ?_ offset cursor rest
  · intro offset cursor rest more result source ends
    exact halted offset cursor rest more ends
  · intro offset cursor rest more result source goes ih
    obtain ⟨resumable, something⟩ := not_or.1 goes
    exact step offset cursor rest more resumable something ih

theorem stepsFrom_of_halted (more : rest ≠ [])
    (ends : (parse rest).status.code.isTerminal = true ∨
      Text.takeBytes (parse rest).consumed rest = []) :
    stepsFrom parse offset cursor rest = [] := by
  rcases ends with terminal | nothing
  · exact stepsFrom_of_terminal more terminal
  · exact stepsFrom_of_noProgress more nothing

end Reference

end SchemaHighlighter
