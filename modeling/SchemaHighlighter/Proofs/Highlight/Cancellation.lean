import SchemaHighlighter.Proofs.Engine.Transport
import SchemaHighlighter.Proofs.Highlight.Release

/-! # Scans that are cut short

A token may be cancelled at any moment of a scan, told by the number of events that the engine has
on record by then. The engine does not know of the token and the scan asks for it between two
statements only. So a statement that has begun is parsed to its end, with all its attempts, and the
scan has the tokens that it would have had at that point anyway. -/
namespace SchemaHighlighter

variable {β σ : Type}

/-- Whether a token is cancelled that comes to be so when this many events are on record, or never
at all. -/
def Recorded.raised (moment : Option Nat) (m : Machine (Recorded β σ)) : Bool :=
  moment.any fun n => n ≤ m.control.events.length

/-- Everything that a scan asked of its engine, in order. -/
def Scan.told (s : Scan (Recorded β σ)) : List (Event β) := s.machine.control.events.reverse

/-- How many statements have begun by a moment, if there is one, where each has these events. -/
def begun : Option Nat → List (List (Event β)) → Nat
  | _, [] => 0
  | moment, asked :: later =>
    if moment = some 0 then 0 else begun (moment.map (· - asked.length)) later + 1

section

variable {moment : Option Nat} {asked : List (Event β)} {later exchanges : List (List (Event β))}

theorem begun_zero (exchanges : List (List (Event β))) : begun (some 0) exchanges = 0 := by
  cases exchanges with
  | nil => rfl
  | cons => exact if_pos rfl

theorem begun_cons (going : moment ≠ some 0) :
    begun moment (asked :: later) = begun (moment.map (· - asked.length)) later + 1 :=
  if_neg going

theorem begun_none (exchanges : List (List (Event β))) :
    begun none exchanges = exchanges.length := by
  induction exchanges with
  | nil => rfl
  | cons asked later ih =>
    rw [begun_cons (Option.some_ne_none 0).symm, Option.map_none, ih, List.length_cons]

theorem begun_le_length (moment : Option Nat) (exchanges : List (List (Event β))) :
    begun moment exchanges ≤ exchanges.length := by
  induction exchanges generalizing moment with
  | nil => exact Nat.le_refl 0
  | cons asked later ih =>
    by_cases raised : moment = some 0
    · rw [raised, begun_zero]
      exact Nat.zero_le _
    · rw [begun_cons raised, List.length_cons]
      exact Nat.succ_le_succ (ih _)

/-- The statements that have begun are those whose first event comes before the moment. -/
theorem lt_begun_iff {n i : Nat} (inside : i < exchanges.length) :
    i < begun (some n) exchanges ↔ (exchanges.take i).flatten.length < n := by
  induction exchanges generalizing n i with
  | nil => cases inside
  | cons asked later ih =>
    by_cases raised : n = 0
    · rw [raised, begun_zero]
      exact iff_of_false (Nat.not_lt_zero i) (Nat.not_lt_zero _)
    · rw [begun_cons fun zero => raised (Option.some.inj zero), Option.map_some]
      cases i with
      | zero =>
        rw [List.take_zero, List.flatten_nil, List.length_nil]
        omega
      | succ i =>
        rw [List.take_succ_cons, List.flatten_cons, List.length_append, Nat.add_lt_add_iff_right,
          ih (Nat.lt_of_succ_lt_succ inside)]
        omega

theorem raised_holding (moment : Option Nat) (earlier : List (Event β)) (m : Machine σ) :
    Recorded.raised moment (Recorded.holding earlier m) = true ↔
      moment.map (· - earlier.length) = some 0 := by
  cases moment with
  | none => exact iff_of_false Bool.false_ne_true (Option.some_ne_none 0).symm
  | some n =>
    rw [Option.map_some, Option.some.injEq, Nat.sub_eq_zero_iff_le]
    exact decide_eq_true_iff

end

namespace Engine

/-- What a scan that nobody stops asks of its engine, one list for each statement: the record of
all attempts at it. -/
def exchangesFrom (e : Engine σ) (probe : ParseCall → Memory → β) (window : Window) (rest : Text)
    (m : Machine σ) : List (List (Event β)) :=
  if rest = [] then []
  else
    let w := (e.recording probe).parseWindowed rest window (Recorded.start m)
    let asked := w.machine.control.events.reverse
    match w.outcome with
    | .error _ => [asked]
    | .ok result =>
      let source := Text.takeBytes result.consumed rest
      if result.status.code.isTerminal ∨ source = [] then [asked]
      else
        asked :: exchangesFrom e probe w.window (rest.drop source.length)
          (Recorded.unrecorded w.machine)
termination_by rest.length
decreasing_by
  have nonempty : 0 < rest.length := List.length_pos_iff.2 ‹_›
  have moved : 0 < (Text.takeBytes result.consumed rest).length :=
    List.length_pos_iff.2 fun h => ‹¬ _› (Or.inr h)
  simp only [List.length_drop]
  omega

def exchanges (e : Engine σ) (probe : ParseCall → Memory → β) (text : Text) (range : Range)
    (m : Machine σ) : List (List (Event β)) :=
  let stop := Text.offset text range.stop
  let start := min (Text.offset text range.start) stop
  if range.isEmpty then []
  else e.exchangesFrom probe .initial (Text.dropBytes start (Text.takeBytes stop text)) m

variable {e : Engine σ} {probe : ParseCall → Memory → β} {rest : Text} {window window' : Window}
  {m m' : Machine σ} {attempts : List Attempt} {outcome : Except EngineError ParseResult}
  {result : ParseResult} {asked : List (Event β)}

/-- What is asked for a statement is the same on top of every earlier record. -/
theorem exists_asked_of_parseWindowed (probe : ParseCall → Memory → β)
    (run : e.parseWindowed rest window m = ⟨attempts, outcome, window', m'⟩) :
    ∃ asked, ∀ earlier,
      (e.recording probe).parseWindowed rest window (Recorded.holding earlier m) =
        ⟨attempts, outcome, window', Recorded.holding (asked ++ earlier) m'⟩ := by
  have inner := (e.follows_inner probe).parseWindowed rest window (Recorded.holding [] m)
  rcases first : (e.recording probe).parseWindowed rest window (Recorded.holding [] m) with
    ⟨attempts₁, outcome₁, window₁, ⟨memory, control, asked⟩⟩
  rw [first] at inner
  cases run.symm.trans inner
  refine ⟨asked, ?_⟩
  intro earlier
  have onTop := (e.follows_events probe earlier).parseWindowed rest window (Recorded.holding [] m)
  rw [first] at onTop
  exact onTop

theorem exchangesFrom_nil : e.exchangesFrom probe window [] m = [] := by
  rw [exchangesFrom, if_pos rfl]

theorem exchangesFrom_of_halts {stop : Stop} (more : rest ≠ [])
    (run : (e.recording probe).parseWindowed rest window (Recorded.start m) =
      ⟨attempts, outcome, window', Recorded.holding asked m'⟩)
    (halts : Halts rest attempts outcome stop) :
    e.exchangesFrom probe window rest m = [asked.reverse] := by
  rw [exchangesFrom, if_neg more, run]
  cases halts with
  | failed => rfl
  | terminal terminal => exact if_pos (.inl terminal)
  | noProgress resumable nothing => exact if_pos (.inr nothing)

theorem exchangesFrom_of_step (more : rest ≠ [])
    (run : (e.recording probe).parseWindowed rest window (Recorded.start m) =
      ⟨attempts, .ok result, window', Recorded.holding asked m'⟩)
    (resumable : result.status.code.isTerminal ≠ true)
    (something : Text.takeBytes result.consumed rest ≠ []) :
    e.exchangesFrom probe window rest m =
      asked.reverse :: e.exchangesFrom probe window'
        (rest.drop (Text.takeBytes result.consumed rest).length) m' := by
  have on : ¬ (result.status.code.isTerminal = true ∨ Text.takeBytes result.consumed rest = []) :=
    not_or.2 ⟨resumable, something⟩
  rw [exchangesFrom, if_neg more, run]
  exact if_neg on

end Engine

/-- A scan that broke off, or not, after `k` of the statements that the whole scan tries. It began
with an earlier record. -/
structure Scan.CutAfter (k : Nat) (earlier : List (Event β)) (exchanges : List (List (Event β)))
    (steps : List Step) (whole cut : Scan (Recorded β σ)) : Prop where
  told : cut.told = earlier.reverse ++ (exchanges.take k).flatten
  steps : cut.steps = steps.take k
  cancelled : k < exchanges.length → cut.stop = .cancelled
  whole : k = exchanges.length → cut = whole

namespace Engine

section

variable {e : Engine σ} {probe : ParseCall → Memory → β} {rest : Text} {window : Window}
  {m : Machine σ} {moment : Option Nat} {offset : Nat} {cursor : Position}

/-- The token is asked for before the first statement, so nothing of it is parsed. -/
theorem cutAfter_of_raised {earlier : List (Event β)} (more : rest ≠ [])
    (raised : moment.map (· - earlier.length) = some 0) (asked : List (Event β))
    (later : List (List (Event β))) (steps : List Step) (whole : Scan (Recorded β σ)) :
    Scan.CutAfter (begun (moment.map (· - earlier.length)) (asked :: later)) earlier
      (asked :: later) steps whole
      ((e.recording probe).scanFrom (Recorded.raised moment) window offset cursor rest
        (Recorded.holding earlier m)) := by
  rw [scanFrom_of_cancelled more ((raised_holding moment earlier m).2 raised), raised, begun_zero]
  refine ⟨?_, ?_, ?_, ?_⟩
  · rw [List.take_zero, List.flatten_nil, List.append_nil]
    rfl
  · rw [List.take_zero]
  · intro _
    rfl
  · rintro ⟨⟩

/-- A scan with a token goes past the statements that begin before the token is cancelled. -/
theorem cutAfter_scanFrom (e : Engine σ) (probe : ParseCall → Memory → β) (moment : Option Nat)
    (window : Window) (offset : Nat) (cursor : Position) (rest : Text) (m : Machine σ)
    (earlier : List (Event β)) :
    Scan.CutAfter
      (begun (moment.map (· - earlier.length)) (e.exchangesFrom probe window rest m)) earlier
      (e.exchangesFrom probe window rest m)
      (e.scanFrom (fun _ => false) window offset cursor rest m).steps
      ((e.recording probe).scanFrom (Recorded.raised none) window offset cursor rest
        (Recorded.holding earlier m))
      ((e.recording probe).scanFrom (Recorded.raised moment) window offset cursor rest
        (Recorded.holding earlier m)) := by
  induction window, offset, cursor, rest, m using scanFrom_induct e (fun _ => false)
    generalizing earlier with
  | nil window offset cursor m =>
    simp only [scanFrom_nil, exchangesFrom_nil]
    exact ⟨(List.append_nil _).symm, rfl, fun more => absurd more (Nat.lt_irrefl 0), fun _ => rfl⟩
  | cancelled window offset cursor rest m more cancelled => cases cancelled
  | halted window offset cursor rest m attempts outcome window' m' stop more going run halts =>
    obtain ⟨asked, recorded⟩ := exists_asked_of_parseWindowed probe run
    have first := recorded []
    rw [List.append_nil] at first
    rw [scanFrom_of_halts more going run halts, exchangesFrom_of_halts more first halts]
    by_cases raised : moment.map (· - earlier.length) = some 0
    · exact cutAfter_of_raised more raised _ _ _ _
    · have unraised := mt (raised_holding moment earlier m).1 raised
      rw [begun_cons raised, scanFrom_of_halts more Bool.false_ne_true (recorded earlier) halts,
        scanFrom_of_halts more unraised (recorded earlier) halts]
      refine ⟨?_, rfl, ?_, fun _ => rfl⟩
      · simp only [Scan.told, Recorded.holding, List.reverse_append, begun, List.take_succ_cons,
          List.take_nil, List.flatten_cons, List.flatten_nil, List.append_nil]
      · intro cut
        rw [begun] at cut
        exact absurd cut (Nat.lt_irrefl 1)
  | step window offset cursor rest m attempts result window' m' more going run resumable
      something ih =>
    obtain ⟨asked, recorded⟩ := exists_asked_of_parseWindowed probe run
    have first := recorded []
    rw [List.append_nil] at first
    rw [scanFrom_of_step more going run resumable something,
      exchangesFrom_of_step more first resumable something]
    by_cases raised : moment.map (· - earlier.length) = some 0
    · exact cutAfter_of_raised more raised _ _ _ _
    · have unraised := mt (raised_holding moment earlier m).1 raised
      obtain ⟨told, steps, cancelled, whole⟩ := ih (asked ++ earlier)
      -- what is left until the moment, once this statement has had its events
      have left : moment.map (· - (asked ++ earlier).length) =
          (moment.map (· - earlier.length)).map (· - asked.reverse.length) := by
        rw [Option.map_map]
        congr 1
        funext n
        rw [Function.comp_apply, List.length_reverse, List.length_append]
        omega
      rw [left] at told steps cancelled whole
      rw [begun_cons raised,
        scanFrom_of_step more Bool.false_ne_true (recorded earlier) resumable something,
        scanFrom_of_step more unraised (recorded earlier) resumable something]
      refine ⟨?_, ?_, ?_, ?_⟩
      · rw [List.take_succ_cons, List.flatten_cons, ← List.append_assoc, ← List.reverse_append]
        exact told
      · rw [List.take_succ_cons]
        exact congrArg _ steps
      · intro cut
        exact cancelled (Nat.lt_of_succ_lt_succ cut)
      · intro all
        dsimp only
        rw [whole (Nat.succ.inj all)]

/-- Every statement that the scan goes past has its exchange, and so has one that ends it. -/
theorem length_exchangesFrom (e : Engine σ) (probe : ParseCall → Memory → β) (window : Window)
    (offset : Nat) (cursor : Position) (rest : Text) (m : Machine σ) :
    let steps := (e.scanFrom (fun _ => false) window offset cursor rest m).steps
    let exchanges := e.exchangesFrom probe window rest m
    steps.length ≤ exchanges.length ∧ exchanges.length ≤ steps.length + 1 := by
  induction window, offset, cursor, rest, m using scanFrom_induct e (fun _ => false) with
  | nil window offset cursor m =>
    rw [scanFrom_nil, exchangesFrom_nil]
    exact ⟨Nat.le_refl 0, Nat.zero_le 1⟩
  | cancelled window offset cursor rest m more cancelled => cases cancelled
  | halted window offset cursor rest m attempts outcome window' m' stop more going run halts =>
    obtain ⟨asked, recorded⟩ := exists_asked_of_parseWindowed probe run
    rw [scanFrom_of_halts more going run halts, exchangesFrom_of_halts more (recorded []) halts]
    exact ⟨Nat.zero_le 1, Nat.le_refl 1⟩
  | step window offset cursor rest m attempts result window' m' more going run resumable
      something ih =>
    obtain ⟨asked, recorded⟩ := exists_asked_of_parseWindowed probe run
    rw [scanFrom_of_step more going run resumable something,
      exchangesFrom_of_step more (recorded []) resumable something]
    exact ⟨Nat.succ_le_succ ih.1, Nat.succ_le_succ ih.2⟩

end

/-- What a token does to a scan, whenever it is cancelled. The engine's calls come statement by
statement. Those of the statements that begin before the token is cancelled are all made, with every
attempt, and no others. The tokens are those of the same statements. Where no statement is left out
the scan is the same as without a cancellation. -/
theorem scan_cut_short (isWord : Char → Bool) (e : Engine σ) (probe : ParseCall → Memory → β)
    (text : Text) (range : Range) (m : Machine σ) :
    let exchanges := e.exchanges probe text range m
    let run := fun moment =>
      (e.recording probe).scan (Recorded.raised moment) text range (Recorded.start m)
    let whole := run none
    (whole.told = exchanges.flatten ∧
      whole.steps = (e.scan (fun _ => false) text range m).steps ∧
      whole.steps.length ≤ exchanges.length ∧ exchanges.length ≤ whole.steps.length + 1) ∧
    ∀ moment : Nat,
      let cut := run (some moment)
      ∃ k ≤ exchanges.length,
        (∀ i < exchanges.length, i < k ↔ (exchanges.take i).flatten.length < moment) ∧
        cut.told = (exchanges.take k).flatten ∧ cut.told <+: whole.told ∧
        cut.steps = whole.steps.take k ∧
        cut.tokens isWord = (whole.steps.take k).flatMap (Step.tokens isWord) ∧
        (k < exchanges.length → cut.stop = .cancelled) ∧
        (k = exchanges.length → cut = whole) := by
  intro exchanges run whole
  let steps := (e.scan (fun _ => false) text range m).steps
  obtain ⟨cutAfter, few, many⟩ : (∀ moment, Scan.CutAfter (begun moment exchanges) [] exchanges
      steps whole (run moment)) ∧ steps.length ≤ exchanges.length ∧
        exchanges.length ≤ steps.length + 1 := by
    by_cases empty : range.isEmpty = true
    · simp only [steps, exchanges, Engine.exchanges, run, whole, scan, if_pos empty]
      refine ⟨?_, Nat.le_refl 0, Nat.zero_le 1⟩
      intro moment
      exact ⟨rfl, rfl, fun more => absurd more (Nat.not_lt_zero _), fun _ => rfl⟩
    · simp only [steps, exchanges, Engine.exchanges, run, whole, scan, if_neg empty]
      refine ⟨?_, length_exchangesFrom e probe _ _ _ _ m⟩
      intro moment
      have cut := cutAfter_scanFrom e probe moment .initial
        (min (Text.offset text range.start) (Text.offset text range.stop)) range.start
        (Text.dropBytes (min (Text.offset text range.start) (Text.offset text range.stop))
          (Text.takeBytes (Text.offset text range.stop) text)) m []
      simp only [List.length_nil, Nat.sub_zero, Option.map_id'] at cut
      exact cut
  have told : whole.told = exchanges.flatten := by
    rw [(cutAfter none).told, begun_none, List.take_length]
    rfl
  have same : whole.steps = steps := by
    rw [(cutAfter none).steps, begun_none, List.take_of_length_le few]
  rw [same]
  refine ⟨⟨told, rfl, few, many⟩, ?_⟩
  intro moment cut
  have after := cutAfter (some moment)
  have calls : cut.told = (exchanges.take (begun (some moment) exchanges)).flatten := after.told
  refine ⟨begun (some moment) exchanges, begun_le_length _ _, ?_, calls, ?_, after.steps, ?_,
    after.cancelled, after.whole⟩
  · intro i inside
    exact lt_begun_iff inside
  · rw [calls, told]
    refine ⟨(exchanges.drop (begun (some moment) exchanges)).flatten, ?_⟩
    rw [← List.flatten_append, List.take_append_drop]
  · exact congrArg (List.flatMap (Step.tokens isWord)) after.steps

/-- A token that is cancelled in the first attempt at the first of two statements, which overflows
the scratch stack. The second attempt is made, and no more. -/
theorem scan_cut_short_of_overflow :
    let m := Linear.machine 128 128 ({ entries := [{
      status := [.value 0]
      statement := some { kind := .value 8, payload := [.relative 5, .value 1] }
      count := 7 }] } : Playback.State)
    let text := "enum A;".toList ++ List.replicate 58 ' '
    let probe := fun (call : ParseCall) (_ : Memory) => call.length
    let exchanges := Playback.engine.exchanges probe text (wholeRange text) m
    let run := fun moment => (Playback.engine.recording probe).scan (Recorded.raised moment) text
      (wholeRange text) (Recorded.start m)
    exchanges.map List.length = [11, 6] ∧ (run (some 2)).told.length = 11 ∧
      (run (some 2)).tokens Text.isWordChar = [⟨0, 0, 4, .keyword⟩, ⟨0, 5, 1, .typeName⟩] ∧
      (run (some 2)).stop = .cancelled := by
  intro m text probe exchanges run
  have lengths : exchanges.map List.length = [11, 6] := by decide +kernel
  have steps : ((run none).steps.take 1).flatMap (Step.tokens Text.isWordChar) =
      [⟨0, 0, 4, .keyword⟩, ⟨0, 5, 1, .typeName⟩] := by decide +kernel
  obtain ⟨k, -, begun, told, -, -, tokens, cancelled, -⟩ :=
    (scan_cut_short Text.isWordChar Playback.engine probe text (wholeRange text) m).2 2
  obtain ⟨first, others, split, eleven, six⟩ := List.map_eq_cons_iff.1 lengths
  obtain ⟨second, none, rfl, -, nothing⟩ := List.map_eq_cons_iff.1 six
  obtain rfl := List.map_eq_nil_iff.1 nothing
  simp only [exchanges] at split
  rw [split] at begun told cancelled
  have one : k = 1 := by
    have some := (begun 0 Nat.zero_lt_two).2 Nat.zero_lt_two
    have few := mt (begun 1 Nat.one_lt_two).1 (by simp [eleven])
    omega
  subst one
  refine ⟨lengths, ?_, tokens.trans steps, cancelled Nat.one_lt_two⟩
  rw [told]
  simp [eleven]

end Engine

end SchemaHighlighter
