import SchemaHighlighter.Proofs.Highlight.Cover
import SchemaHighlighter.Proofs.Highlight.Relative

/-! # Tokens lie apart

Two tokens of a scan never share a column of a line. Within a statement this rests on keywords
being whole words that end before the name, and between statements on each taking text of its
own. Sorted, the tokens of a line therefore follow one another, and an editor that adds the
differences up never meets a token that begins inside the one before. -/
namespace SchemaHighlighter

namespace Token

/-- The token covers this column of this line. -/
def Occupies (t : Token) (line column : Nat) : Prop :=
  t.line = line ∧ t.column ≤ column ∧ column < t.column + t.length

def Apart (t u : Token) : Prop :=
  ∀ line column, ¬ (t.Occupies line column ∧ u.Occupies line column)

/-- The token covers the characters of the text from byte `start` to byte `stop`. -/
structure Spans (text : Text) (start stop : Nat) (t : Token) : Prop where
  offset : t.offset text = start
  slice : ∃ part, Text.slice? text start stop = some part ∧ part.length = t.length
  positive : 0 < t.length

variable {text : Text} {t u : Token} {start stop start' stop' : Nat}

theorem Apart.symm (h : t.Apart u) : u.Apart t := by
  intro line column both
  exact h line column both.symm

theorem apart_of_column_le (h : t.line = u.line → t.column + t.length ≤ u.column) :
    t.Apart u := by
  rintro line column ⟨⟨one, _, below⟩, two, above, _⟩
  have order := h (one.trans two.symm)
  omega

/-- Of two tokens that lie apart on a line the one that begins first also ends first. -/
theorem Apart.column_le (h : t.Apart u) (positive : 0 < u.length) (line : t.line = u.line)
    (order : t.column ≤ u.column) : t.column + t.length ≤ u.column := by
  apply Nat.le_of_not_lt
  intro inside
  exact h u.line u.column ⟨⟨line, order, inside⟩, rfl, Nat.le_refl _, by omega⟩

/-- One stretch of the text behind another takes columns behind it wherever they share a line. -/
theorem Spans.apart (h : t.Spans text start stop) (h' : u.Spans text start' stop')
    (order : stop ≤ start') : t.Apart u := by
  apply apart_of_column_le
  intro line
  obtain ⟨part, slice, length⟩ := h.slice
  obtain ⟨part', slice', -⟩ := h'.slice
  have inside := (Text.le_of_slice? slice).1
  obtain ⟨between, wide⟩ := Text.exists_slice? (Text.isBoundary_of_slice? slice).1
    (Text.isBoundary_of_slice? slice').1 (by omega)
  have begins : part.length ≤ between.length := (Text.isPrefix_of_slice? slice wide order).length_le
  have positive := h.positive
  obtain ⟨before, after, rfl, first, last⟩ := Text.slice?_eq_some_iff.1 wide
  have something : between ≠ [] := by
    rintro rfl
    rw [List.length_nil] at begins
    omega
  have columns := Text.column_add_length_le something (h.offset.trans first.symm)
    (h'.offset.trans (by rw [Text.byteLength_append]; omega)) line
  dsimp only at columns
  omega

end Token

namespace StatementData

theorem nodup_keywords (data : StatementData) : data.keywords.Nodup := by
  cases data with
  | package isMain => cases isMain <;> simp [keywords]
  | importing | definition | enumValue | bare => simp [keywords]
  | field type => cases type <;> simp [keywords]

theorem ascii_of_mem_keywords {data : StatementData} {word : String}
    (listed : word ∈ data.keywords) :
    word.toList ≠ [] ∧ ∀ c ∈ word.toList, c.toNat < 0x80 ∧ c.isAlphanum = true := by
  suffices plain : word.toList ≠ [] ∧
      word.toList.all (fun c => decide (c.toNat < 0x80) && c.isAlphanum) = true by
    simpa only [List.all_eq_true, Bool.and_eq_true, decide_eq_true_eq] using plain
  cases data with
  | package isMain =>
    have either : word = "main" ∨ word = "package" := by
      cases isMain with
      | false => exact .inr (List.mem_singleton.1 listed)
      | true => simpa [keywords] using listed
    rcases either with rfl | rfl <;> decide
  | importing =>
    rw [List.mem_singleton.1 listed]
    decide
  | definition d =>
    rw [List.mem_singleton.1 listed]
    cases d <;> decide
  | field type =>
    cases type with
    | none => cases listed
    | some type =>
      rw [List.mem_singleton.1 listed]
      cases type <;> decide
  | enumValue | bare => cases listed

theorem word_of_mem_keywords {isWord : Char → Bool} (known : Text.ContinuesIdentifiers isWord)
    {data : StatementData} {word : String} (listed : word ∈ data.keywords) :
    ∀ c ∈ word.toList, isWord c = true := by
  intro c member
  obtain ⟨ascii, alphanum⟩ := (ascii_of_mem_keywords listed).2 c member
  rw [known.ascii c ascii, alphanum, Bool.true_or]

end StatementData

/-- Names lie between characters of what their statements took. -/
def Scan.NamesInside {σ : Type} (s : Scan σ) : Prop :=
  ∀ step ∈ s.steps, ∀ statement ∈ step.result.statement, ∀ name ∈ statement.data.name?,
    Text.IsBoundary step.source name.offset ∧ Text.IsBoundary step.source name.stop

instance {σ : Type} (s : Scan σ) : Decidable s.NamesInside :=
  inferInstanceAs (Decidable (∀ step ∈ s.steps, ∀ statement ∈ step.result.statement,
    ∀ name ∈ statement.data.name?, _ ∧ _))

section

variable {text rest part : Text} {stop i : Nat} {step : Step} {statement : Statement}
  {name : SourceSpan} {t : Token} {isWord : Char → Bool}

theorem Step.Placed.spans (placed : step.Placed text stop rest)
    (short : Text.byteLength text < 0xFFFFFFFF) (type : TokenType) (nonempty : part ≠ [])
    (slice : Text.slice? step.source i (i + Text.byteLength part) = some part) :
    (Token.at (step.cursor.walked step.source i) part.length type).Spans text (step.offset + i)
      (step.offset + (i + Text.byteLength part)) := by
  obtain ⟨offset, covers⟩ := placed.covers short type slice
  have inner := Text.slice?_slice?
    (Text.slice?_of_isPrefix placed.located.left placed.source) slice
  refine ⟨offset, ⟨part, inner, covers.length.symm⟩, ?_⟩
  rw [covers.length]
  exact List.length_pos_iff.2 nonempty

theorem Step.Placed.spans_of_keywordToken? (placed : step.Placed text stop rest)
    (short : Text.byteLength text < 0xFFFFFFFF) {word : String} {limit : Nat}
    (nonempty : word.toList ≠ [])
    (found : keywordToken? isWord step.cursor step.source limit word = some t) :
    ∃ i, Text.slice? step.source i (i + Text.byteLength word.toList) = some word.toList ∧
      i + Text.byteLength word.toList ≤ limit ∧
      Text.isWholeWord isWord step.source i (i + Text.byteLength word.toList) = true ∧
      t.Spans text (step.offset + i) (step.offset + (i + Text.byteLength word.toList)) := by
  obtain ⟨i, stands, before, whole, rfl⟩ := Statement.stands_of_keywordToken? found
  exact ⟨i, stands, before, whole, placed.spans short .keyword nonempty stands⟩

theorem Step.Placed.spans_of_nameToken? (placed : step.Placed text stop rest)
    (short : Text.byteLength text < 0xFFFFFFFF) {type : TokenType}
    (first : Text.IsBoundary step.source name.offset)
    (last : Text.IsBoundary step.source name.stop)
    (found : nameToken? step.cursor step.source name type = some t) :
    t.Spans text (step.offset + name.offset) (step.offset + name.stop) ∧
      name.stop ≤ Text.byteLength step.source := by
  obtain ⟨part, slice⟩ := Text.exists_slice? first last (Nat.le_add_right _ _)
  obtain ⟨length, inside⟩ := Text.le_of_slice? slice
  have characters : nameLength step.source name = part.length := by
    simp only [nameLength, slice]
  unfold nameToken? at found
  rw [characters] at found
  split at found
  case isTrue => cases found
  case isFalse nonempty =>
    cases found
    have something : part ≠ [] := by
      rintro rfl
      exact nonempty rfl
    rw [← length] at slice ⊢
    exact ⟨placed.spans short type something slice, by omega⟩

/-- A token spans a stretch of what its statement took. -/
theorem Step.Placed.exists_spans (placed : step.Placed text stop rest)
    (short : Text.byteLength text < 0xFFFFFFFF)
    (inside : ∀ statement ∈ step.result.statement, ∀ name ∈ statement.data.name?,
      Text.IsBoundary step.source name.offset ∧ Text.IsBoundary step.source name.stop)
    (member : t ∈ step.tokens isWord) :
    ∃ start stop, t.Spans text start stop ∧ step.offset ≤ start ∧
      stop ≤ step.offset + Text.byteLength step.source := by
  unfold Step.tokens at member
  split at member
  case h_1 => cases member
  case h_2 statement said =>
    obtain ⟨name, named, ⟨word, listed, found⟩ | found⟩ := Statement.mem_tokens.1 member
    · have nonempty := (StatementData.ascii_of_mem_keywords listed).1
      obtain ⟨i, stands, -, -, spans⟩ := placed.spans_of_keywordToken? short nonempty found
      have within := (Text.le_of_slice? stands).2
      exact ⟨_, _, spans, Nat.le_add_right _ _, Nat.add_le_add_left within _⟩
    · obtain ⟨first, last⟩ := inside statement said name named
      obtain ⟨spans, within⟩ := placed.spans_of_nameToken? short first last found
      exact ⟨_, _, spans, Nat.le_add_right _ _, Nat.add_le_add_left within _⟩

/-- The tokens of one statement lie apart, though they do not come in order. -/
theorem Step.Placed.apart (known : Text.ContinuesIdentifiers isWord)
    (placed : step.Placed text stop rest) (short : Text.byteLength text < 0xFFFFFFFF)
    (inside : ∀ statement ∈ step.result.statement, ∀ name ∈ statement.data.name?,
      Text.IsBoundary step.source name.offset ∧ Text.IsBoundary step.source name.stop) :
    (step.tokens isWord).Pairwise Token.Apart := by
  unfold Step.tokens
  split
  case h_1 => exact .nil
  case h_2 statement said =>
    unfold Statement.tokens
    split
    case h_1 => exact .nil
    case h_2 name named =>
      obtain ⟨first, last⟩ := inside statement said name named
      rw [List.pairwise_append]
      refine ⟨?_, ?_, ?_⟩
      · -- two keywords are different whole words
        rw [List.pairwise_filterMap]
        refine statement.data.nodup_keywords.imp_of_mem ?_
        intro word other listed listed' different t found u found'
        have nonempty := (StatementData.ascii_of_mem_keywords listed).1
        have nonempty' := (StatementData.ascii_of_mem_keywords listed').1
        obtain ⟨i, stands, -, whole, spans⟩ :=
          placed.spans_of_keywordToken? short nonempty found
        obtain ⟨j, stands', -, whole', spans'⟩ :=
          placed.spans_of_keywordToken? short nonempty' found'
        have unlike : word.toList ≠ other.toList := fun same => different (String.toList_inj.1 same)
        rcases Text.apart_of_isWholeWord unlike nonempty nonempty'
          (StatementData.word_of_mem_keywords known listed)
          (StatementData.word_of_mem_keywords known listed') stands stands' whole whole'
          with before | after
        · exact spans.apart spans' (Nat.add_le_add_left before _)
        · exact (spans'.apart spans (Nat.add_le_add_left after _)).symm
      · cases nameToken? step.cursor step.source name statement.data.nameType with
        | none => exact .nil
        | some t => exact List.pairwise_singleton _ _
      · -- keywords end before the name
        intro t found u found'
        obtain ⟨word, listed, found⟩ := List.mem_filterMap.1 found
        have nonempty := (StatementData.ascii_of_mem_keywords listed).1
        obtain ⟨i, -, before, -, spans⟩ := placed.spans_of_keywordToken? short nonempty found
        obtain ⟨spans', -⟩ :=
          placed.spans_of_nameToken? short first last (Option.mem_toList.1 found')
        exact spans.apart spans' (Nat.add_le_add_left before _)

end

namespace Delta

/-- The second token begins on a later line, or behind the end of the first. -/
def Follows (t u : Token) : Prop :=
  t.line ≤ u.line ∧ (t.line = u.line → t.column + t.length ≤ u.column)

theorem follows_sorted {tokens : List Token} (apart : tokens.Pairwise Token.Apart)
    (positive : ∀ t ∈ tokens, 0 < t.length) : (sorted tokens).Pairwise Follows := by
  have same : (sorted tokens).Perm tokens := List.mergeSort_perm tokens notAfter
  have apart' := (same.pairwise_iff fun h => Token.Apart.symm h).2 apart
  refine (apart'.and (pairwise_sorted tokens)).imp_of_mem ?_
  intro t u _ member both
  obtain ⟨apart, order⟩ := both
  rw [Position.le_def] at order
  simp only [Token.position] at order
  constructor
  · omega
  · intro line
    exact apart.column_le (positive u (same.mem_iff.1 member)) line (by omega)

/-- Where a token is on the line of the one before, it is told to start behind its end. -/
theorem length_le_of_encodeFrom {tokens : List Token} (follows : tokens.Pairwise Follows)
    (line column k : Nat) {length start : Nat}
    (first : (encodeFrom line column tokens)[5 * k + 2]? = some length)
    (same : (encodeFrom line column tokens)[5 * k + 5]? = some 0)
    (second : (encodeFrom line column tokens)[5 * k + 6]? = some start) : length ≤ start := by
  induction tokens generalizing line column k with
  | nil => cases first
  | cons t rest ih =>
    obtain ⟨ahead, follows⟩ := List.pairwise_cons.1 follows
    cases k with
    | zero =>
      cases rest with
      | nil => cases same
      | cons u more =>
        obtain ⟨order, gap⟩ := ahead u (.head _)
        simp only [encodeFrom] at first same second
        have length' := Option.some.inj first
        have line' := Option.some.inj same
        have start' := Option.some.inj second
        have equal : t.line = u.line := by omega
        rw [if_pos equal.symm] at start'
        have behind := gap equal
        omega
    | succ k => exact ih follows t.line t.column k first same second

end Delta

namespace Engine

variable {σ : Type} {isWord : Char → Bool} {e : Engine σ} {text : Text} {range : Range}
  {poll : Machine σ → Bool} {m : Machine σ}

/-- Tokens of a scan lie apart, and in the relative form none begins inside the one before. -/
theorem scan_tokens_apart (known : Text.ContinuesIdentifiers isWord)
    (short : Text.byteLength text < 0xFFFFFFFF) (line : range.start.line < 0x100000000)
    (column : range.start.column < 0x100000000) (inside : (e.scan poll text range m).NamesInside) :
    let tokens := (e.scan poll text range m).tokens isWord
    let data := Delta.encode tokens
    tokens.Pairwise Token.Apart ∧ (∀ t ∈ tokens, 0 < t.length) ∧
      ∀ k length start, data[5 * k + 2]? = some length → data[5 * k + 5]? = some 0 →
        data[5 * k + 6]? = some start → length ≤ start := by
  intro tokens data
  have placed : ∀ step ∈ (e.scan poll text range m).steps,
      ∃ rest, step.Placed text (Text.offset text range.stop) rest := by
    intro step member
    exact placed_of_mem_steps_scan short line column member
  have spans : ∀ step ∈ (e.scan poll text range m).steps, ∀ t ∈ step.tokens isWord,
      ∃ start stop, t.Spans text start stop ∧ step.offset ≤ start ∧
        stop ≤ step.offset + Text.byteLength step.source := by
    intro step member t produced
    obtain ⟨rest, placed⟩ := placed step member
    exact placed.exists_spans short (inside step member) produced
  have apart : tokens.Pairwise Token.Apart := by
    refine List.pairwise_flatMap.2 ⟨?_, ?_⟩
    · intro step member
      obtain ⟨rest, placed⟩ := placed step member
      exact placed.apart known short (inside step member)
    · refine (order_scan short line column poll m).imp_of_mem ?_
      intro first last member member' order t produced u produced'
      obtain ⟨start, stop, before, -, ends⟩ := spans first member t produced
      obtain ⟨start', stop', after, begins, -⟩ := spans last member' u produced'
      exact before.apart after (by omega)
  have positive : ∀ t ∈ tokens, 0 < t.length := by
    intro t produced
    obtain ⟨step, member, produced⟩ := List.mem_flatMap.1 produced
    obtain ⟨start, stop, spanned, -, -⟩ := spans step member t produced
    exact spanned.positive
  refine ⟨apart, positive, ?_⟩
  intro k length start first same second
  exact Delta.length_le_of_encodeFrom (Delta.follows_sorted apart positive) 0 0 k first same second

/-- Two keywords before a name on one line, of which the second is found first. -/
theorem scan_tokens_apart_of_package :
    let m := Linear.machine 112 112 ({} : Grammar.State)
    let text := "package main a;".toList
    let s := Grammar.engine.scan (fun _ => false) text (wholeRange text) m
    let data := Delta.encode (s.tokens Text.isWordChar)
    Text.byteLength text < 0xFFFFFFFF ∧ s.NamesInside ∧
      s.tokens Text.isWordChar =
        [⟨0, 8, 4, .keyword⟩, ⟨0, 0, 7, .keyword⟩, ⟨0, 13, 1, .typeName⟩] ∧
      (s.tokens Text.isWordChar).Pairwise Token.Apart ∧
      ∀ k length start, data[5 * k + 2]? = some length → data[5 * k + 5]? = some 0 →
        data[5 * k + 6]? = some start → length ≤ start := by
  intro m text s data
  have short : Text.byteLength text < 0xFFFFFFFF := by decide
  have inside : s.NamesInside := by decide +kernel
  have found : s.tokens Text.isWordChar =
      [⟨0, 8, 4, .keyword⟩, ⟨0, 0, 7, .keyword⟩, ⟨0, 13, 1, .typeName⟩] := by decide +kernel
  obtain ⟨apart, -, follow⟩ := scan_tokens_apart Text.continuesIdentifiers_isWordChar
    short (by decide) (by decide) inside
  exact ⟨short, inside, found, apart, follow⟩

end Engine

end SchemaHighlighter
