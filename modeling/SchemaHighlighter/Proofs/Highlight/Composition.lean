import SchemaHighlighter.Proofs.Engine.Terminator
import SchemaHighlighter.Proofs.Highlight.Extension

/-! # Ranges that meet between two statements

Where a scan stands between two statements its range can be divided. The scan up to there and the
scan from there on find what the scan of the whole range finds, if no statement needs more of
the text than the scan goes past. -/
namespace SchemaHighlighter

/-- A statement of a text is found in all beginnings of the text with `enough` bytes. -/
def NoLookAhead (f : Text → ParseResult) (enough : Text → Nat) : Prop :=
  ∀ ⦃beginning text : Text⦄, beginning <+: text → (f text).status.code.isResumable = true →
    enough text ≤ Text.byteLength beginning → f beginning = f text

/-- How many bytes a scan goes past for the first statement of a text: the count of the answer
without the part of a character that it may end in. -/
def passed (f : Text → ParseResult) (text : Text) : Nat :=
  Text.floorBoundary text (f text).consumed

namespace Reference

variable {f : Text → ParseResult}

/-- A beginning of the text that goes past its first statement begins with that statement. -/
theorem stepsFrom_of_noLookAhead (settled : NoLookAhead f (passed f)) {offset : Nat}
    {cursor : Position} {rest further : Text}
    (resumable : (f rest).status.code.isTerminal ≠ true)
    (something : Text.takeBytes (f rest).consumed rest ≠ [])
    (begins : Text.takeBytes (f rest).consumed rest ++ further <+: rest) :
    stepsFrom f offset cursor (Text.takeBytes (f rest).consumed rest ++ further) =
      let source := Text.takeBytes (f rest).consumed rest
      ⟨offset, cursor, source, f rest, []⟩ ::
        stepsFrom f (offset + Text.byteLength source) (cursor.walk source) further := by
  have goes : (f rest).status.code.isResumable = true := by
    simpa [StatusCode.isTerminal] using resumable
  have same : f (Text.takeBytes (f rest).consumed rest ++ further) = f rest := by
    apply settled begins goes
    rw [passed, Text.floorBoundary, Text.byteLength_append]
    exact Nat.le_add_right _ _
  have taken : Text.takeBytes (f rest).consumed
      (Text.takeBytes (f rest).consumed rest ++ further) =
        Text.takeBytes (f rest).consumed rest :=
    Text.takeBytes_of_isPrefix begins (List.prefix_append _ _)
  rw [stepsFrom_of_step (List.append_ne_nil_of_left_ne_nil something further)
    (by rwa [same]) (by rwa [same, taken]), same, taken]
  simp only [List.drop_left]

/-- A scan can be divided after any number of statements: what they took is scanned to them
alone, and the scan of what is left of the text goes on with the others. -/
theorem stepsFrom_append (settled : NoLookAhead f (passed f)) {offset : Nat} {cursor : Position}
    {rest : Text} {done later : List Step}
    (steps : stepsFrom f offset cursor rest = done ++ later) :
    let taken := done.flatMap Step.source
    taken <+: rest ∧ stepsFrom f offset cursor taken = done ∧
      stepsFrom f (offset + Text.byteLength taken) (cursor.walk taken) (rest.drop taken.length) =
        later := by
  induction offset, cursor, rest using stepsFrom_induct f generalizing done with
  | nil offset cursor =>
    rw [stepsFrom_nil] at steps
    obtain ⟨rfl, rfl⟩ := List.append_eq_nil_iff.1 steps.symm
    exact ⟨List.nil_prefix, stepsFrom_nil, stepsFrom_nil⟩
  | halted offset cursor rest more ends =>
    rw [stepsFrom_of_halted more ends] at steps
    obtain ⟨rfl, rfl⟩ := List.append_eq_nil_iff.1 steps.symm
    exact ⟨List.nil_prefix, stepsFrom_nil, stepsFrom_of_halted more ends⟩
  | step offset cursor rest more resumable something ih =>
    rw [stepsFrom_of_step more resumable something] at steps
    cases done with
    | nil =>
      refine ⟨List.nil_prefix, stepsFrom_nil, ?_⟩
      rw [List.nil_append] at steps
      rw [← steps]
      exact stepsFrom_of_step more resumable something
    | cons first done =>
      obtain ⟨rfl, further⟩ := List.cons.inj steps
      obtain ⟨begins, found, left⟩ := ih further
      have whole := Text.takeBytes_append_dropBytes (f rest).consumed rest
      rw [Text.dropBytes_eq_drop] at whole
      have begins' :
          Text.takeBytes (f rest).consumed rest ++ done.flatMap Step.source <+: rest := by
        obtain ⟨left, split⟩ := begins
        exact ⟨left, by rw [List.append_assoc, split, whole]⟩
      refine ⟨begins', ?_, ?_⟩
      · rw [List.flatMap_cons, stepsFrom_of_noLookAhead settled resumable something begins']
        dsimp only
        rw [found]
      · rw [List.flatMap_cons, Text.byteLength_append, ← Nat.add_assoc, Position.walk_append,
          List.length_append, ← List.drop_drop, left]

variable {text : Text} {range : Range} {done later : List Step}

theorem steps_append (settled : NoLookAhead f (passed f))
    (steps' : steps f text range = done ++ later) :
    let place := range.start.walk (done.flatMap Step.source)
    steps f text ⟨range.start, place⟩ = done ∧ steps f text ⟨place, range.stop⟩ = later := by
  intro place
  by_cases empty : range.isEmpty = true
  · rw [steps, if_pos empty] at steps'
    obtain ⟨rfl, rfl⟩ := List.append_eq_nil_iff.1 steps'.symm
    have nothing : Range.isEmpty ⟨range.start, range.start⟩ = true :=
      decide_eq_true (.inr ⟨rfl, Nat.le_refl _⟩)
    have same : (⟨range.start, range.stop⟩ : Range) = range := rfl
    constructor
    · exact if_pos nothing
    · exact if_pos empty
  · have order : range.start ≤ range.stop := by
      rw [Range.isEmpty, decide_eq_true_iff] at empty
      rw [Position.le_def] at empty ⊢
      omega
    obtain ⟨rest, left⟩ := Text.exists_slice?_of_le text order
    rw [steps_of_slice? left] at steps'
    obtain ⟨begins, found, further⟩ := stepsFrom_append settled steps'
    have first := Text.slice?_of_isPrefix left begins
    have last := Text.slice?_drop left begins
    have named : Text.offset text place = Text.offset text range.start +
        Text.byteLength (done.flatMap Step.source) := Text.offset_walk_of_slice? first
    rw [← named] at first last further
    constructor
    · rw [steps_of_slice? first]
      exact found
    · rw [steps_of_slice? last]
      exact further

end Reference

namespace Engine

section

variable {σ : Type} {e : Engine σ} {poll : Machine σ → Bool} {text : Text} {m : Machine σ}
  {head : Nat × Position}

theorem exists_of_mem_heads_scanFrom {window : Window} {offset : Nat} {cursor : Position}
    {rest : Text} (member : head ∈ (e.scanFrom poll window offset cursor rest m).heads) :
    ∃ done later, (e.scanFrom poll window offset cursor rest m).steps = done ++ later ∧
      head.2 = cursor.walk (done.flatMap Step.source) := by
  induction window, offset, cursor, rest, m using scanFrom_induct e poll with
  | nil window offset cursor m =>
    rw [scanFrom_nil] at member ⊢
    rw [List.mem_singleton.1 member]
    exact ⟨[], [], rfl, rfl⟩
  | cancelled window offset cursor rest m more cancelled =>
    rw [scanFrom_of_cancelled more cancelled] at member ⊢
    rw [List.mem_singleton.1 member]
    exact ⟨[], [], rfl, rfl⟩
  | halted window offset cursor rest m attempts outcome window' m' stop more going run halts =>
    rw [scanFrom_of_halts more going run halts] at member ⊢
    rw [List.mem_singleton.1 member]
    exact ⟨[], [], rfl, rfl⟩
  | step window offset cursor rest m attempts result window' m' more going run resumable
      something ih =>
    rw [scanFrom_of_step more going run resumable something] at member ⊢
    rcases List.mem_cons.1 member with rfl | member
    · exact ⟨[], _, rfl, rfl⟩
    · obtain ⟨done, later, split, cursor'⟩ := ih member
      refine ⟨_ :: done, later, congrArg _ split, ?_⟩
      rw [cursor', List.flatMap_cons, Position.walk_append]

/-- A scan stands where the statements that it has completed lead. -/
theorem exists_of_mem_heads_scan {range : Range}
    (member : head ∈ (e.scan poll text range m).heads) :
    ∃ done later, (e.scan poll text range m).steps = done ++ later ∧
      head.2 = range.start.walk (done.flatMap Step.source) := by
  rw [scan] at member ⊢
  split at member
  case isTrue empty =>
    rw [if_pos empty, List.mem_singleton.1 member]
    exact ⟨[], [], rfl, rfl⟩
  case isFalse nonempty =>
    rw [if_neg nonempty]
    exact exists_of_mem_heads_scanFrom member

end

/-- A statement of the grammar is found once its last character is there. -/
theorem noLookAhead_grammar : NoLookAhead Grammar.result (passed Grammar.result) := by
  intro beginning text begins resumable enough
  obtain ⟨before, last, after, split, terminates, consumed, answered⟩ :=
    Grammar.answeredFrom_of_isResumable resumable
  have length : Text.byteLength (before ++ [last]) = (Grammar.result text).consumed := by
    rw [Text.byteLength_append, Text.byteLength_cons, terminates.utf8Size, consumed]
    rfl
  have whole : before ++ [last] ++ after = text := by
    rw [split, List.append_assoc, List.singleton_append]
  have taken : Text.takeBytes (Grammar.result text).consumed text = before ++ [last] := by
    rw [← length, ← whole]
    exact Text.takeBytes_byteLength_append (before ++ [last]) after
  rw [passed, Text.floorBoundary, taken, length, consumed] at enough
  rcases Grammar.prefixStable_result begins with needs | same
  · rw [answered begins enough] at needs
    cases needs
  · exact same

/-- Wherever a scan stands between two statements, the scan of the range up to there and the scan
of the range from there on have its tokens. The grammar is one of the parsers for which this
holds. -/
theorem scan_composes (isWord : Char → Bool) :
    (∀ {τ : Type} {f : Text → ParseResult} {own : τ → Prop}
      {parse : ParseCall → Action (Linear τ) Int}, Pure f own parse → PrefixStable f →
      NoLookAhead f (passed f) → ∀ text range m m₁ m₂, Spacious own (Text.byteLength text) m →
      Spacious own (Text.byteLength text) m₁ → Spacious own (Text.byteLength text) m₂ →
      let scan := (linear parse).scan (fun _ => false) text
      ∀ head ∈ (scan range m).heads, (scan range m).tokens isWord =
        (scan ⟨range.start, head.2⟩ m₁).tokens isWord ++
          (scan ⟨head.2, range.stop⟩ m₂).tokens isWord) ∧
    Pure Grammar.result (fun s => s.faults = {}) Grammar.engine.parse ∧
      PrefixStable Grammar.result ∧ NoLookAhead Grammar.result (passed Grammar.result) := by
  refine ⟨?_, Grammar.pure_engine, Grammar.prefixStable_result, noLookAhead_grammar⟩
  intro τ f own parse pure stable settled text range m m₁ m₂ spacious spacious₁ spacious₂ scan
    head member
  obtain ⟨done, later, split, cursor⟩ := exists_of_mem_heads_scan member
  have plain := steps_scan pure stable range spacious (Nat.le_refl _)
  rw [split, List.map_append] at plain
  have sources : (done.map Step.plain).flatMap Step.source = done.flatMap Step.source :=
    List.flatMap_map ..
  obtain ⟨first, last⟩ := Reference.steps_append settled plain.symm
  rw [sources, ← cursor] at first last
  simp only [scan, tokens_scan isWord pure stable _ spacious (Nat.le_refl _),
    tokens_scan isWord pure stable _ spacious₁ (Nat.le_refl _),
    tokens_scan isWord pure stable _ spacious₂ (Nat.le_refl _), Reference.tokens, first, last,
    ← plain, List.flatMap_append]

/-- A range divided after its first statement, in the middle of a line. -/
theorem scan_composes_of_grammar :
    let m := Linear.machine 112 112 ({} : Grammar.State)
    let text := "enum Ä; action b;\n\x7d".toList
    let range : Range := ⟨{}, ⟨9, 0⟩⟩
    let scan := (linear Grammar.engine.parse).scan (fun _ => false) text
    Spacious (fun s => s.faults = {}) (Text.byteLength text) m ∧
      (8, ⟨0, 7⟩) ∈ (scan range m).heads ∧
      (scan range m).tokens Text.isWordChar =
        (scan ⟨{}, ⟨0, 7⟩⟩ m).tokens Text.isWordChar ++
          (scan ⟨⟨0, 7⟩, ⟨9, 0⟩⟩ m).tokens Text.isWordChar := by
  intro m text range scan
  have spacious : Spacious (fun s => s.faults = {}) (Text.byteLength text) m :=
    ⟨⟨Linear.sound_machine _ (by decide), rfl⟩, by decide +kernel⟩
  have member : (8, ⟨0, 7⟩) ∈ (scan range m).heads := by decide +kernel
  exact ⟨spacious, member, (scan_composes Text.isWordChar).1 Grammar.pure_engine
    Grammar.prefixStable_result noLookAhead_grammar text range m m m spacious spacious spacious _
    member⟩

end Engine

/-! The bytes that a scan goes past are the right measure. A parser whose count ends inside a
character may see that character before it answers, and is cut off when the range ends there. -/
namespace Miscounting

/-- The only statement that is known. -/
def known : Text := "enum Aä".toList

/-- The count ends inside the last character. -/
def answer (text : Text) : Answer :=
  if known <+: text then
    { code := 0, statement := some ⟨0, 8, [.view (.within 5 1)]⟩, count := 7 }
  else if text <+: known then { code := 3 }
  else { code := 5 }

def result (text : Text) : ParseResult :=
  if known <+: text then
    { status := {}, consumed := 7
      statement := some ⟨0, .definition .enum ⟨['A'], 5⟩⟩ }
  else if text <+: known then
    { status := { code := .expectedStatementEnd }, consumed := 0, statement := none }
  else { status := { code := .syntaxError }, consumed := 0, statement := none }

def parse : ParseCall → Action (Linear Unit) Int :=
  (Engine.answering fun input s => (answer (Text.decode input), s)).parse

theorem encodable_answer (text : Text) : (answer text).Encodable := by
  unfold answer
  split
  · refine ⟨rfl, ?_, fun _ => Nat.le_of_ble_eq_true rfl⟩
    rintro _ ⟨⟩
    rfl
  · split <;> exact ⟨rfl, by rintro _ ⟨⟩, fun _ => Nat.zero_le _⟩

theorem meaning?_answer (text : Text) :
    ((answer text).meaning? (Text.encode text)).map ParseResult.withoutId = some (result text) := by
  by_cases whole : known <+: text
  · have length := Text.byteLength_le_of_isPrefix whole
    have count : clampCount 7 (Text.encode text).length = 7 := by
      rw [Text.length_encode]
      exact Nat.min_eq_left (Nat.le_trans (by decide) length)
    have quiet : countLog 7 (Text.encode text).length = [] := by
      have known : Text.byteLength known = 8 := rfl
      rw [Text.length_encode]
      exact if_neg (by omega)
    obtain ⟨more, rfl⟩ := whole
    have stands : Grammar.Word.StandsIn ⟨5, ['A']⟩ (known ++ more) :=
      ⟨"enum ".toList, 'ä' :: more, rfl, rfl⟩
    have name : (View.within 5 1).span? (Text.encode (known ++ more)) = some ⟨['A'], 5⟩ :=
      stands.span?
    simp [answer, result, Answer.meaning?, Answer.status?, Answer.statement?, StatusCode.ofRaw,
      StatusCode.isResumable, Draft.meaning?, StatementKind.ofRaw, StatementKind.all, name, count,
      quiet, ParseResult.withoutId]
  · by_cases part : text <+: known <;>
    simp [answer, result, whole, part, Answer.meaning?, Answer.status?, Answer.statement?,
      StatusCode.ofRaw, StatusCode.isResumable, clampCount, countLog,
      ParseResult.withoutId]

theorem pure_parse : Engine.Pure result (fun _ => True) parse where
  bounded text := by
    unfold result
    split
    case isTrue whole =>
      have length := Text.byteLength_le_of_isPrefix whole
      exact Nat.le_trans (by decide : 7 ≤ 8) length
    case isFalse =>
      split <;> exact Nat.zero_le _
  answers text call m _ prepared _ := by
    have encodable := encodable_answer text
    have count : (answer text).count = (result text).consumed := by
      unfold answer result
      split
      · rfl
      · split <;> rfl
    exact ⟨answer text, _, m.control, encodable, meaning?_answer text, count,
      .refl prepared encodable, rfl, trivial,
      Engine.answering_parse prepared (by rw [Text.decode_encode]) encodable⟩

theorem prefixStable_result : PrefixStable result := by
  intro beginning text begins
  by_cases whole : known <+: beginning
  · right
    rw [result, result, if_pos whole, if_pos (whole.trans begins)]
  · by_cases part : beginning <+: known
    · left
      rw [result, if_neg whole, if_pos part]
      rfl
    · right
      have whole' : ¬ known <+: text := fun known' =>
        (List.prefix_or_prefix_of_prefix known' begins).elim whole part
      have part' : ¬ text <+: known := fun part' => part (begins.trans part')
      rw [result, result, if_neg whole, if_neg part, if_neg whole', if_neg part']

theorem noLookAhead_consumed : NoLookAhead result fun text => (result text).consumed := by
  intro beginning text begins resumable enough
  by_cases whole : known <+: text
  · have cut : ∀ part ∈ known.inits, 7 ≤ Text.byteLength part → part = known := by decide
    have known' : known <+: beginning := by
      rcases List.prefix_or_prefix_of_prefix whole begins with known' | part
      · exact known'
      · simp only [result, if_pos whole] at enough
        rw [cut beginning ((List.mem_inits ..).2 part) enough]
    rw [result, result, if_pos whole, if_pos known']
  · rw [result, if_neg whole] at resumable
    split at resumable <;> cases resumable

end Miscounting

namespace Engine

/-- It is not enough that statements are found in all beginnings with the bytes of the count. -/
theorem not_scan_composes_of_consumed :
    Pure Miscounting.result (fun _ => True) Miscounting.parse ∧
      PrefixStable Miscounting.result ∧
      NoLookAhead Miscounting.result (fun text => (Miscounting.result text).consumed) ∧
      let m := Linear.machine 96 96 ()
      let text := Miscounting.known
      let scan := (linear Miscounting.parse).scan (fun _ => false) text
      Spacious (fun _ => True) (Text.byteLength text) m ∧
        (6, ⟨0, 6⟩) ∈ (scan (wholeRange text) m).heads ∧
        (scan (wholeRange text) m).tokens Text.isWordChar =
          [⟨0, 0, 4, .keyword⟩, ⟨0, 5, 1, .typeName⟩] ∧
        (scan ⟨{}, ⟨0, 6⟩⟩ m).tokens Text.isWordChar ++
          (scan ⟨⟨0, 6⟩, (wholeRange text).stop⟩ m).tokens Text.isWordChar = [] := by
  have spacious : Spacious (fun _ => True) (Text.byteLength Miscounting.known)
      (Linear.machine 96 96 ()) :=
    ⟨⟨Linear.sound_machine _ (by decide), trivial⟩, by decide +kernel⟩
  have tokens := fun range => tokens_scan Text.isWordChar Miscounting.pure_parse
    Miscounting.prefixStable_result range spacious (Nat.le_refl _)
  refine ⟨Miscounting.pure_parse, Miscounting.prefixStable_result,
    Miscounting.noLookAhead_consumed, spacious, by decide +kernel, ?_, ?_⟩
  · rw [tokens]
    decide +kernel
  · rw [tokens, tokens]
    decide +kernel

end Engine

end SchemaHighlighter
