import SchemaHighlighter.Engine.Grammar
import SchemaHighlighter.Proofs.Highlight.Cases
import SchemaHighlighter.Proofs.Text.Place
import SchemaHighlighter.Proofs.Text.Search

/-! # The cursor of a scan

The cursor and the byte offset of a scan are moved apart from each other, but they never part,
whatever the engine answers. The cursor may begin past the end of a line: the byte is then that
of the line break, and the first character that is passed brings the cursor back. -/
namespace SchemaHighlighter

/-- The scan stands at a byte and a cursor that name the same place, and `rest` is what is left
of the text from there to byte `stop`. -/
structure Located (text : Text) (stop offset : Nat) (cursor : Position) (rest : Text) : Prop where
  named : Text.offset text cursor = offset
  left : Text.slice? text offset stop = some rest
  line : cursor.line < 0x100000000
  column : cursor.column < 0x100000000

/-- The attempt was handed a beginning of `rest`. -/
def Attempt.Begins (rest : Text) (a : Attempt) : Prop :=
  ∃ input, input <+: rest ∧ Text.byteLength input = a.length

/-- The step was taken where `rest` was left, and took a beginning of it. -/
structure Step.Placed (text : Text) (stop : Nat) (rest : Text) (step : Step) : Prop where
  located : Located text stop step.offset step.cursor rest
  source : step.source <+: rest
  attempts : ∀ a ∈ step.attempts, a.Begins rest

/-- What holds of a scan that begins at byte `offset`. -/
structure Scan.Tracked {σ : Type} (text : Text) (stop offset : Nat) (s : Scan σ) : Prop where
  steps : ∀ step ∈ s.steps, ∃ rest, step.Placed text stop rest
  ended : ∃ rest, Located text stop s.offset s.cursor rest ∧ ∀ a ∈ s.stop.attempts, a.Begins rest
  since : ∀ step ∈ s.steps, offset ≤ step.offset
  order : s.steps.Pairwise fun a b => a.offset + Text.byteLength a.source ≤ b.offset

section

variable {text rest taken : Text} {stop offset : Nat} {cursor : Position}

theorem Located.walk (h : Located text stop offset cursor rest)
    (short : Text.byteLength text < 0xFFFFFFFF) (begins : taken <+: rest) :
    Text.offset text (cursor.walk taken) = offset + Text.byteLength taken ∧
      (cursor.walk taken).line < 0x100000000 ∧ (cursor.walk taken).column < 0x100000000 := by
  obtain ⟨before, after, split, length, -⟩ := Text.slice?_eq_some_iff.1 h.left
  obtain ⟨left, rfl⟩ := begins
  have parts : text = before ++ taken ++ (left ++ after) := by
    rw [split]
    simp only [List.append_assoc]
  have named : Text.offset (before ++ taken ++ (left ++ after)) cursor =
      Text.byteLength before := by
    rw [← parts, length, h.named]
  refine ⟨by rw [parts, Text.offset_walk named, length], ?_⟩
  by_cases moves : taken = []
  · rw [moves]
    exact ⟨h.line, h.column⟩
  · obtain ⟨line, column⟩ := Text.walk_le_length named moves
    have inside := Text.length_le_byteLength (before ++ taken)
    have whole := congrArg Text.byteLength parts
    rw [Text.byteLength_append] at whole
    omega

theorem Located.next (h : Located text stop offset cursor rest)
    (short : Text.byteLength text < 0xFFFFFFFF) (begins : taken <+: rest) :
    Located text stop (offset + Text.byteLength taken) (cursor.walk taken)
      (rest.drop taken.length) := by
  obtain ⟨named, line, column⟩ := h.walk short begins
  exact ⟨named, Text.slice?_drop h.left begins, line, column⟩

end

namespace Engine

variable {σ : Type} {e : Engine σ} {text rest : Text} {stop : Nat}

theorem Calls.begins {attempts : List Attempt} {m m' : Machine σ}
    (calls : e.Calls rest m attempts m') {a : Attempt} (member : a ∈ attempts) : a.Begins rest := by
  induction calls with
  | none => cases member
  | call begins _ _ ih =>
    rcases List.mem_cons.1 member with rfl | later
    · exact ⟨_, begins, rfl⟩
    · exact ih later

theorem begins_of_parseWindowed {window window' : Window} {m m' : Machine σ}
    {attempts : List Attempt} {outcome : Except EngineError ParseResult}
    (run : e.parseWindowed rest window m = ⟨attempts, outcome, window', m'⟩) :
    ∀ a ∈ attempts, a.Begins rest := by
  have calls := calls_parseWithin e rest none window m
  rw [parseWindowed] at run
  rw [run] at calls
  exact fun a => calls.begins

theorem tracked_nil {stopped : Stop} {offset : Nat} {cursor : Position} {m : Machine σ}
    (h : Located text stop offset cursor rest) (attempts : ∀ a ∈ stopped.attempts, a.Begins rest) :
    (Scan.mk [] stopped offset cursor m).Tracked text stop offset :=
  ⟨List.forall_mem_nil _, ⟨rest, h, attempts⟩, List.forall_mem_nil _, .nil⟩

/-- A scan keeps byte and cursor together from step to step. -/
theorem tracked_scanFrom (short : Text.byteLength text < 0xFFFFFFFF) (poll : Machine σ → Bool)
    (window : Window) {offset : Nat} {cursor : Position} (m : Machine σ)
    (h : Located text stop offset cursor rest) :
    (e.scanFrom poll window offset cursor rest m).Tracked text stop offset := by
  induction window, offset, cursor, rest, m using scanFrom_induct e poll with
  | nil window offset cursor m =>
    rw [scanFrom_nil]
    exact tracked_nil h (List.forall_mem_nil _)
  | cancelled window offset cursor rest m more cancelled =>
    rw [scanFrom_of_cancelled more cancelled]
    exact tracked_nil h (List.forall_mem_nil _)
  | halted window offset cursor rest m attempts outcome window' m' stop more going run halts =>
    rw [scanFrom_of_halts more going run halts]
    have begins := begins_of_parseWindowed run
    cases halts <;> exact tracked_nil h begins
  | step window offset cursor rest m attempts result window' m' more going run resumable
      something ih =>
    rw [scanFrom_of_step more going run resumable something]
    have begins := Text.takeBytes_isPrefix result.consumed rest
    have further := ih (h.next short begins)
    refine ⟨?_, further.ended, ?_, List.pairwise_cons.2 ⟨further.since, further.order⟩⟩
    · rintro step (_ | ⟨_, later⟩)
      · exact ⟨rest, h, begins, begins_of_parseWindowed run⟩
      · exact further.steps step later
    · rintro step (_ | ⟨_, later⟩)
      · exact Nat.le_refl _
      · exact Nat.le_trans (Nat.le_add_right _ _) (further.since step later)

/-- The text of a range is a slice, also of one that is empty or the wrong way round. -/
theorem slice?_range (text : Text) (range : Range) :
    let stop := Text.offset text range.stop
    let start := min (Text.offset text range.start) stop
    Text.slice? text start stop = some (Text.dropBytes start (Text.takeBytes stop text)) := by
  intro stop start
  have last : Text.IsBoundary text stop := Text.isBoundary_offset text range.stop
  have first : Text.IsBoundary text start := by
    rcases Nat.le_total (Text.offset text range.start) stop with before | after
    · rw [show start = _ from Nat.min_eq_left before]
      exact Text.isBoundary_offset text range.start
    · rw [show start = _ from Nat.min_eq_right after]
      exact last
  obtain ⟨rest, left⟩ := Text.exists_slice? first last (Nat.min_le_right _ _)
  rw [← Text.eq_of_slice? left, left]

/-- A range with something in it has its start before its end also in bytes. -/
theorem located_start (text : Text) {range : Range} (line : range.start.line < 0x100000000)
    (column : range.start.column < 0x100000000) (nonempty : range.isEmpty = false) :
    let stop := Text.offset text range.stop
    let start := min (Text.offset text range.start) stop
    Located text stop start range.start (Text.dropBytes start (Text.takeBytes stop text)) := by
  have order : range.start ≤ range.stop := by
    have inverted : ¬ range.stop ≤ range.start := of_decide_eq_false nonempty
    rw [Position.le_def] at inverted ⊢
    omega
  have bytes := Text.offset_mono text order
  exact ⟨(Nat.min_eq_left bytes).symm, slice?_range text range, line, column⟩

theorem tracked_scan (short : Text.byteLength text < 0xFFFFFFFF) {range : Range}
    (line : range.start.line < 0x100000000) (column : range.start.column < 0x100000000)
    (poll : Machine σ → Bool) (m : Machine σ) (nonempty : range.isEmpty = false) :
    (e.scan poll text range m).Tracked text (Text.offset text range.stop)
      (Text.offset text range.start) := by
  have located := located_start text line column nonempty
  have start := located.named
  have tracked := tracked_scanFrom (e := e) short poll .initial m located
  simp only [scan, nonempty, Bool.false_eq_true, if_false]
  rw [← start] at tracked ⊢
  exact tracked

theorem steps_scan_of_isEmpty {range : Range} (empty : range.isEmpty = true)
    (poll : Machine σ → Bool) (m : Machine σ) : (e.scan poll text range m).steps = [] := by
  simp only [scan, empty, if_true]

theorem placed_of_mem_steps_scan (short : Text.byteLength text < 0xFFFFFFFF) {range : Range}
    (line : range.start.line < 0x100000000) (column : range.start.column < 0x100000000)
    {poll : Machine σ → Bool} {m : Machine σ} {step : Step}
    (member : step ∈ (e.scan poll text range m).steps) :
    ∃ rest, step.Placed text (Text.offset text range.stop) rest := by
  cases empty : range.isEmpty with
  | true =>
    rw [steps_scan_of_isEmpty empty] at member
    cases member
  | false => exact (tracked_scan short line column poll m empty).steps step member

theorem order_scan (short : Text.byteLength text < 0xFFFFFFFF) {range : Range}
    (line : range.start.line < 0x100000000) (column : range.start.column < 0x100000000)
    (poll : Machine σ → Bool) (m : Machine σ) :
    (e.scan poll text range m).steps.Pairwise fun a b =>
      a.offset + Text.byteLength a.source ≤ b.offset := by
  cases empty : range.isEmpty with
  | true =>
    rw [steps_scan_of_isEmpty empty]
    exact .nil
  | false => exact (tracked_scan short line column poll m empty).order

end Engine

section

variable {isWord : Char → Bool} {text rest : Text} {stop : Nat} {step : Step} {t : Token}

/-- The byte in the text at which the token begins. -/
def Token.offset (text : Text) (t : Token) : Nat := Text.offset text ⟨t.line, t.column⟩

theorem Statement.mem_tokens {s : Statement} {anchor : Position} {source : Text} :
    t ∈ s.tokens isWord anchor source ↔ ∃ name, s.data.name? = some name ∧
      ((∃ word ∈ s.data.keywords, keywordToken? isWord anchor source name.offset word = some t) ∨
        nameToken? anchor source name s.data.nameType = some t) := by
  unfold tokens
  cases named : s.data.name? with
  | none => simp
  | some name => simp [List.mem_append, List.mem_filterMap, Option.mem_toList]

theorem Step.exists_of_mem_tokens (member : t ∈ step.tokens isWord) :
    ∃ i length type, t = .at (step.cursor.walked step.source i) length type := by
  unfold tokens at member
  split at member
  case h_1 => cases member
  case h_2 statement _ =>
    obtain ⟨name, -, ⟨word, -, found⟩ | found⟩ := Statement.mem_tokens.1 member
    · obtain ⟨i, -, rfl⟩ := Option.map_eq_some_iff.1 found
      exact ⟨i, _, _, rfl⟩
    · unfold nameToken? at found
      split at found <;> cases found
      exact ⟨name.offset, _, _, rfl⟩

theorem Step.Placed.offset_token (placed : step.Placed text stop rest)
    (short : Text.byteLength text < 0xFFFFFFFF) (i length : Nat) (type : TokenType) :
    (Token.at (step.cursor.walked step.source i) length type).offset text =
      step.offset + Text.floorBoundary step.source i := by
  have begins := (Text.takeBytes_isPrefix i step.source).trans placed.source
  obtain ⟨named, line, column⟩ := placed.located.walk short begins
  simp only [Token.offset, Token.at, Position.walked, Nat.mod_eq_of_lt line,
    Nat.mod_eq_of_lt column]
  exact named

theorem Step.Placed.end_le (placed : step.Placed text stop rest) :
    step.offset + Text.byteLength step.source ≤ stop := by
  have ends := Text.le_of_slice? placed.located.left
  obtain ⟨left, rfl⟩ := placed.source
  rw [Text.byteLength_append] at ends
  omega

theorem Step.Placed.le_offset_le (placed : step.Placed text stop rest)
    (short : Text.byteLength text < 0xFFFFFFFF) (member : t ∈ step.tokens isWord) :
    step.offset ≤ t.offset text ∧ t.offset text ≤ step.offset + Text.byteLength step.source := by
  obtain ⟨i, length, type, rfl⟩ := Step.exists_of_mem_tokens member
  rw [placed.offset_token short]
  have inside := Text.byteLength_takeBytes_le_byteLength i step.source
  unfold Text.floorBoundary
  omega

end

/-- A slice that a scan takes of a text. -/
structure Slice where
  whole : Text
  start : Nat
  stop : Nat

/-- The slice neither divides a character nor leaves its text. -/
def Slice.Exists (s : Slice) : Prop := ∃ part, Text.slice? s.whole s.start s.stop = some part

/-- The slices of the search for a keyword: the text before the limit, and the two sides of
every occurrence. -/
def searchSlices (source : Text) (limit : Nat) (word : String) : List Slice :=
  ⟨source, 0, Text.floorBoundary source limit⟩ ::
    (Text.occurrencesBefore source word.toList limit).flatMap fun i =>
      [⟨source, 0, i⟩, ⟨source, i + Text.byteLength word.toList, Text.byteLength source⟩]

/-- The slices that one turn of the loop takes to parse: what is left of the range, and what
each attempt is handed of it. -/
def parseSlices (text : Text) (stop offset : Nat) (attempts : List Attempt) : List Slice :=
  ⟨text, offset, stop⟩ ::
    attempts.map fun a => ⟨Text.dropBytes offset (Text.takeBytes stop text), 0, a.length⟩

def Statement.slices (source : Text) (s : Statement) : List Slice :=
  s.data.name?.toList.flatMap fun name =>
    s.data.keywords.flatMap (searchSlices source name.offset)

def Step.slices (text : Text) (stop : Nat) (step : Step) : List Slice :=
  parseSlices text stop step.offset step.attempts ++
    ⟨Text.dropBytes step.offset (Text.takeBytes stop text), 0, Text.byteLength step.source⟩ ::
      step.result.statement.toList.flatMap (Statement.slices step.source)

namespace Scan

variable {σ : Type}

/-- Every slice of a scan up to byte `stop`. -/
def slices (text : Text) (stop : Nat) (s : Scan σ) : List Slice :=
  s.steps.flatMap (Step.slices text stop) ++ parseSlices text stop s.offset s.stop.attempts

/-- Where the loop stands each time round, the last time included. -/
def heads (s : Scan σ) : List (Nat × Position) :=
  s.steps.map (fun step => (step.offset, step.cursor)) ++ [(s.offset, s.cursor)]

end Scan

section

variable {text source rest : Text} {stop offset : Nat} {cursor : Position} {slice : Slice}

theorem Slice.exists_of_isPrefix {part whole : Text} (begins : part <+: whole) :
    (Slice.mk whole 0 (Text.byteLength part)).Exists := by
  obtain ⟨after, rfl⟩ := begins
  exact ⟨part, Text.slice?_eq_some_iff.2 ⟨[], after, rfl, rfl, Nat.zero_add _⟩⟩

theorem exists_of_mem_searchSlices {limit : Nat} {word : String}
    (taken : slice ∈ searchSlices source limit word) : slice.Exists := by
  rcases List.mem_cons.1 taken with rfl | taken
  · exact Slice.exists_of_isPrefix (Text.takeBytes_isPrefix limit source)
  obtain ⟨i, met, taken⟩ := List.mem_flatMap.1 taken
  obtain ⟨stands, -⟩ := Text.slice?_of_mem_occurrencesBefore met
  obtain ⟨first, last⟩ := Text.isBoundary_of_slice? stands
  have inside := (Text.le_of_slice? stands).2
  rcases List.mem_cons.1 taken with rfl | taken
  · exact Text.exists_slice? ⟨[], source, rfl, rfl⟩ first (Nat.zero_le _)
  · rw [List.mem_singleton.1 taken]
    exact Text.exists_slice? last ⟨source, [], (List.append_nil _).symm, rfl⟩ inside

theorem exists_of_mem_parseSlices {attempts : List Attempt}
    (located : Located text stop offset cursor rest) (begins : ∀ a ∈ attempts, a.Begins rest)
    (taken : slice ∈ parseSlices text stop offset attempts) : slice.Exists := by
  rcases List.mem_cons.1 taken with rfl | taken
  · exact ⟨rest, located.left⟩
  · obtain ⟨a, tried, rfl⟩ := List.mem_map.1 taken
    obtain ⟨input, beginning, length⟩ := begins a tried
    rw [← Text.eq_of_slice? located.left, ← length]
    exact Slice.exists_of_isPrefix beginning

theorem Step.Placed.exists_of_mem_slices {step : Step} (placed : step.Placed text stop rest)
    (taken : slice ∈ step.slices text stop) : slice.Exists := by
  rcases List.mem_append.1 taken with parsed | taken
  · exact exists_of_mem_parseSlices placed.located placed.attempts parsed
  rcases List.mem_cons.1 taken with rfl | taken
  · rw [← Text.eq_of_slice? placed.located.left]
    exact Slice.exists_of_isPrefix placed.source
  · obtain ⟨statement, -, taken⟩ := List.mem_flatMap.1 taken
    obtain ⟨name, -, taken⟩ := List.mem_flatMap.1 taken
    obtain ⟨word, -, taken⟩ := List.mem_flatMap.1 taken
    exact exists_of_mem_searchSlices taken

theorem Scan.Tracked.located_of_mem_heads {σ : Type} {s : Scan σ} {head : Nat × Position}
    (tracked : s.Tracked text stop offset) (member : head ∈ s.heads) :
    ∃ rest, Located text stop head.1 head.2 rest := by
  rcases List.mem_append.1 member with earlier | last
  · obtain ⟨step, taken, rfl⟩ := List.mem_map.1 earlier
    obtain ⟨rest, placed⟩ := tracked.steps step taken
    exact ⟨rest, placed.located⟩
  · obtain ⟨rest, located, -⟩ := tracked.ended
    rw [List.mem_singleton.1 last]
    exact ⟨rest, located⟩

theorem Scan.Tracked.exists_of_mem_slices {σ : Type} {s : Scan σ}
    (tracked : s.Tracked text stop offset) (taken : slice ∈ s.slices text stop) :
    slice.Exists := by
  rcases List.mem_append.1 taken with taken | last
  · obtain ⟨step, member, taken⟩ := List.mem_flatMap.1 taken
    obtain ⟨rest, placed⟩ := tracked.steps step member
    exact placed.exists_of_mem_slices taken
  · obtain ⟨rest, located, begins⟩ := tracked.ended
    exact exists_of_mem_parseSlices located begins last

end

namespace Engine

/-- Whatever the engine answers, cursor and byte name one place of the text each time round the
loop, every slice is one, and the tokens of each statement begin in what it took. -/
theorem scan_keeps_place {σ : Type} (isWord : Char → Bool) (e : Engine σ)
    (poll : Machine σ → Bool) (text : Text) (range : Range) (m : Machine σ)
    (short : Text.byteLength text < 0xFFFFFFFF)
    (line : range.start.line < 0x100000000) (column : range.start.column < 0x100000000) :
    let s := e.scan poll text range m
    let start := Text.offset text range.start
    let stop := Text.offset text range.stop
    (range.isEmpty = false →
      (∀ head ∈ s.heads, Text.offset text head.2 = head.1 ∧ Text.IsBoundary text head.1 ∧
        head.1 ≤ stop) ∧
      ∀ slice ∈ s.slices text stop, slice.Exists) ∧
    (∀ step ∈ s.steps, ∀ t ∈ step.tokens isWord,
      step.offset ≤ t.offset text ∧ t.offset text ≤ step.offset + Text.byteLength step.source) ∧
    s.steps.Pairwise (fun a b => ∀ t ∈ a.tokens isWord, ∀ u ∈ b.tokens isWord,
      t.offset text ≤ u.offset text) ∧
    ∀ t ∈ s.tokens isWord, start ≤ t.offset text ∧ t.offset text ≤ stop := by
  intro s start stop
  cases empty : range.isEmpty with
  | true =>
    have none : s.steps = [] := steps_scan_of_isEmpty empty poll m
    refine ⟨fun nonempty => absurd nonempty (by decide), ?_, ?_, ?_⟩
    · rw [none]
      exact List.forall_mem_nil _
    · rw [none]
      exact .nil
    · rw [Scan.tokens, none]
      exact List.forall_mem_nil _
  | false =>
    have tracked : s.Tracked text stop start := tracked_scan short line column poll m empty
    have inside : ∀ step ∈ s.steps, ∀ t ∈ step.tokens isWord, step.offset ≤ t.offset text ∧
        t.offset text ≤ step.offset + Text.byteLength step.source := by
      intro step member t produced
      obtain ⟨rest, placed⟩ := tracked.steps step member
      exact placed.le_offset_le short produced
    refine ⟨fun _ => ⟨?_, fun slice => tracked.exists_of_mem_slices⟩, inside, ?_, ?_⟩
    · intro head member
      obtain ⟨rest, located⟩ := tracked.located_of_mem_heads member
      have ends := Text.le_of_slice? located.left
      exact ⟨located.named, (Text.isBoundary_of_slice? located.left).1, by omega⟩
    · refine tracked.order.imp_of_mem fun first last apart t produced u produced' => ?_
      have before := inside _ first t produced
      have after := inside _ last u produced'
      omega
    · intro t produced
      obtain ⟨step, member, produced⟩ := List.mem_flatMap.1 produced
      obtain ⟨first, last⟩ := inside step member t produced
      obtain ⟨rest, placed⟩ := tracked.steps step member
      exact ⟨Nat.le_trans (tracked.since step member) first, Nat.le_trans last placed.end_le⟩

/-- An engine that counts into the middle of a character, and a range that begins past the end
of a line and ends past the text. -/
theorem scan_keeps_place_miscounted :
    let m := Linear.machine 96 96 ({ faults := { count := some 7 } } : Grammar.State)
    let text := "package a;\nenum Ä;".toList
    let range : Range := ⟨⟨0, 50⟩, ⟨9, 0⟩⟩
    let s := Grammar.engine.scan (fun _ => false) text range m
    range.isEmpty = false ∧ Text.byteLength text < 0xFFFFFFFF ∧
      (∀ head ∈ s.heads, Text.offset text head.2 = head.1 ∧ Text.IsBoundary text head.1 ∧
        head.1 ≤ Text.offset text range.stop) ∧
      ∀ t ∈ s.tokens Text.isWordChar, Text.offset text range.start ≤ t.offset text := by
  intro m text range s
  have short : Text.byteLength text < 0xFFFFFFFF := by decide
  have nonempty : range.isEmpty = false := rfl
  obtain ⟨loop, -, -, inside⟩ := scan_keeps_place Text.isWordChar Grammar.engine
    (fun _ => false) text range m short (by decide) (by decide)
  exact ⟨nonempty, short, (loop nonempty).1, fun t member => (inside t member).1⟩

end Engine

end SchemaHighlighter
