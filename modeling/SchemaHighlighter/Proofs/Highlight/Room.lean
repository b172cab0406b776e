import SchemaHighlighter.Proofs.Highlight.Windowing
import SchemaHighlighter.Proofs.Text.Slice

/-! # Scans with room

Where the scratch stack has room for a text it has room for every part of it. No attempt
overflows then, so a scan goes past the very statements that one parse of all the remaining text
would find, windows or not. -/
namespace SchemaHighlighter

theorem Scratch.holds_of_le {s : Scratch} {n n' : Nat} (room : s.Holds (callSizes n'))
    (shorter : n ≤ n') : s.Holds (callSizes n) := by
  simp only [Holds, callSizes, FitsNext, push, place, alignDown, and_true] at room ⊢
  omega

/-- The step as a parser without windows would tell it: no attempts, and no id. -/
def Step.plain (s : Step) : Step := { s with result := s.result.withoutId, attempts := [] }

theorem Step.tokens_plain (isWord : Char → Bool) (s : Step) :
    s.plain.tokens isWord = s.tokens isWord :=
  (Engine.tokens_of_withoutId rfl s.offset s.cursor s.source s.attempts []).symm

namespace Engine

variable {τ : Type} {parse : ParseCall → Action (Linear τ) Int} {m m' : Machine (Linear τ)}
  {own : τ → Prop} {f : Text → ParseResult} {text rest : Text} {n : Nat}

/-- A machine on which a pure engine can go on, with room for inputs of `n` bytes. -/
structure Spacious (own : τ → Prop) (n : Nat) (m : Machine (Linear τ)) : Prop where
  fit : Serviceable own m
  room : m.control.scratch.Holds (Scratch.callSizes n)

theorem parseStatement_of_spacious (pure : Pure f own parse) (spacious : Spacious own n m)
    (short : Text.byteLength text ≤ n) {outcome : Except EngineError ParseResult}
    (run : (linear parse).parseStatement text m = (outcome, m')) :
    Spacious own n m' ∧ ∃ result, outcome = .ok result ∧ result.withoutId = f text := by
  obtain ⟨result, after, run', same, scratch, fit⟩ :=
    parseStatement_of_holds pure spacious.fit (Scratch.holds_of_le spacious.room short)
  rw [run'] at run
  cases run
  refine ⟨⟨fit, ?_⟩, result, rfl, same⟩
  rw [scratch]
  exact spacious.room

theorem Calls.spacious {attempts : List Attempt} (pure : Pure f own parse)
    (calls : (linear parse).Calls rest m attempts m') (spacious : Spacious own n m)
    (short : Text.byteLength rest ≤ n) :
    Spacious own n m' ∧ ∀ a ∈ attempts, ¬ a.Overflowed := by
  induction calls with
  | none => exact ⟨spacious, List.forall_mem_nil _⟩
  | call begins run _ ih =>
    have part : Text.byteLength _ ≤ n := Nat.le_trans (Text.byteLength_le_of_isPrefix begins) short
    obtain ⟨spacious', result, rfl, -⟩ := parseStatement_of_spacious pure spacious part run
    obtain ⟨last, others⟩ := ih spacious'
    refine ⟨last, ?_⟩
    rintro a (_ | ⟨_, later⟩)
    · rintro ⟨_, _, ⟨⟩⟩
    · exact others a later

theorem answer_of_spacious (pure : Pure f own parse) (stable : PrefixStable f)
    (spacious : Spacious own n m) (short : Text.byteLength rest ≤ n) {window window' : Window}
    {attempts : List Attempt} {outcome : Except EngineError ParseResult}
    (run : (linear parse).parseWindowed rest window m = ⟨attempts, outcome, window', m'⟩) :
    Spacious own n m' ∧ ∃ result, outcome = .ok result ∧ result.withoutId = f rest := by
  have calls := calls_parseWithin (linear parse) rest none window m
  rw [← parseWindowed, run] at calls
  obtain ⟨spacious', none⟩ := calls.spacious pure spacious short
  refine ⟨spacious', ?_⟩
  rcases (answer_of_windowed pure stable spacious.fit run).2 with
    answered | ⟨⟨a, tried, overflowed⟩, -⟩
  · exact answered
  · exact absurd overflowed (none a tried)

theorem steps_scanFrom (pure : Pure f own parse) (stable : PrefixStable f)
    (window : Window) (offset : Nat) (cursor : Position) (spacious : Spacious own n m)
    (short : Text.byteLength rest ≤ n) :
    ((linear parse).scanFrom (fun _ => false) window offset cursor rest m).steps.map Step.plain =
      Reference.stepsFrom f offset cursor rest := by
  induction window, offset, cursor, rest, m using scanFrom_induct (linear parse)
      fun _ => false with
  | nil window offset cursor m =>
    rw [scanFrom_nil, Reference.stepsFrom_nil]
    rfl
  | cancelled window offset cursor rest m more cancelled => cases cancelled
  | halted window offset cursor rest m attempts outcome window' m' stop more going run halts =>
    obtain ⟨-, result, rfl, same⟩ := answer_of_spacious pure stable spacious short run
    rw [scanFrom_of_halts more going run halts]
    cases halts with
    | terminal terminal =>
      rw [Reference.stepsFrom_of_terminal more (by rw [← same]; exact terminal)]
      rfl
    | noProgress resumable nothing =>
      rw [Reference.stepsFrom_of_noProgress more (by rw [← same]; exact nothing)]
      rfl
  | step window offset cursor rest m attempts result window' m' more going run resumable
      something ih =>
    obtain ⟨spacious', _, ⟨⟩, same⟩ := answer_of_spacious pure stable spacious short run
    have shorter :
        Text.byteLength (rest.drop (Text.takeBytes result.consumed rest).length) ≤ n := by
      rw [← Text.dropBytes_eq_drop]
      exact Nat.le_trans (Text.byteLength_dropBytes_le_byteLength _ rest) short
    rw [scanFrom_of_step more going run resumable something,
      stepsFrom_of_withoutId same offset cursor more resumable something]
    simp only [List.map_cons, ih spacious' shorter, Step.plain, same]

theorem steps_scan (pure : Pure f own parse) (stable : PrefixStable f) (range : Range)
    (spacious : Spacious own n m) (short : Text.byteLength text ≤ n) :
    ((linear parse).scan (fun _ => false) text range m).steps.map Step.plain =
      Reference.steps f text range := by
  simp only [scan, Reference.steps]
  split
  · rfl
  · apply steps_scanFrom pure stable .initial _ range.start spacious
    have inside := Text.byteLength_dropBytes_le_byteLength (min (Text.offset text range.start)
      (Text.offset text range.stop)) (Text.takeBytes (Text.offset text range.stop) text)
    have whole := Text.byteLength_takeBytes_le_byteLength (Text.offset text range.stop) text
    omega

theorem tokens_eq_of_steps {σ : Type} {s : Scan σ} {steps : List Step} (isWord : Char → Bool)
    (same : s.steps.map Step.plain = steps) :
    s.tokens isWord = steps.flatMap (Step.tokens isWord) := by
  rw [← same, List.flatMap_map]
  simp only [Step.tokens_plain]
  rfl

theorem tokens_scan (isWord : Char → Bool) (pure : Pure f own parse) (stable : PrefixStable f)
    (range : Range) (spacious : Spacious own n m) (short : Text.byteLength text ≤ n) :
    ((linear parse).scan (fun _ => false) text range m).tokens isWord =
      Reference.tokens isWord f text range :=
  tokens_eq_of_steps isWord (steps_scan pure stable range spacious short)

end Engine

end SchemaHighlighter
