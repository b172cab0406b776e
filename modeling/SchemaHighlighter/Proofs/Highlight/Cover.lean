import SchemaHighlighter.Proofs.Highlight.Cursor

/-! # What tokens cover

The characters under a token are those that it was made for: a keyword of its statement, or the
statement's name. They are found in bytes of the statement, told as a line and a column, and
counted in characters, and still they are the same characters of the text. -/
namespace SchemaHighlighter

/-- The characters of the text under the token are `part`. -/
structure Token.Covers (text : Text) (t : Token) (part : Text) : Prop where
  boundary : Text.IsBoundary text (t.offset text)
  spelled : (Text.dropBytes (t.offset text) text).take t.length = part
  length : t.length = part.length

section

variable {text rest source part : Text} {stop i : Nat} {step : Step}

theorem Step.Placed.covers (placed : step.Placed text stop rest)
    (short : Text.byteLength text < 0xFFFFFFFF) (type : TokenType)
    (slice : Text.slice? step.source i (i + Text.byteLength part) = some part) :
    let t := Token.at (step.cursor.walked step.source i) part.length type
    t.offset text = step.offset + i ∧ t.Covers text part := by
  intro t
  have inner := Text.slice?_slice?
    (Text.slice?_of_isPrefix placed.located.left placed.source) slice
  have boundary := (Text.isBoundary_iff step.source i).1 (Text.isBoundary_of_slice? slice).1
  have offset : t.offset text = step.offset + i := by
    rw [placed.offset_token short, boundary]
  have length : t.length = part.length := by
    have inside := Text.le_of_slice? inner
    have characters := Text.length_le_byteLength part
    exact Nat.mod_eq_of_lt (by omega)
  refine ⟨offset, ?_, ?_, length⟩
  · rw [offset]
    exact (Text.isBoundary_of_slice? inner).1
  · rw [offset, length]
    exact Text.dropBytes_of_slice? inner

end

namespace Statement

variable {isWord : Char → Bool} {source part : Text} {anchor : Position} {s : Statement}
  {name : SourceSpan} {t : Token}

theorem stands_of_keywordToken? {word : String} {limit : Nat}
    (found : keywordToken? isWord anchor source limit word = some t) :
    ∃ i, Text.slice? source i (i + Text.byteLength word.toList) = some word.toList ∧
      i + Text.byteLength word.toList ≤ limit ∧
      Text.isWholeWord isWord source i (i + Text.byteLength word.toList) = true ∧
      t = .at (anchor.walked source i) word.toList.length .keyword := by
  obtain ⟨i, search, rfl⟩ := Option.map_eq_some_iff.1 found
  rw [Text.findKeywordBefore_eq] at search
  have whole := List.find?_some search
  obtain ⟨stands, before⟩ :=
    Text.slice?_of_mem_occurrencesBefore (List.mem_of_find?_eq_some search)
  exact ⟨i, stands, before, whole, rfl⟩

theorem slice_of_keywordToken? {word : String} {limit : Nat}
    (found : keywordToken? isWord anchor source limit word = some t) :
    ∃ i, Text.slice? source i (i + Text.byteLength word.toList) = some word.toList ∧
      i + Text.byteLength word.toList ≤ limit ∧
      t = .at (anchor.walked source i) word.toList.length .keyword := by
  obtain ⟨i, stands, before, -, is⟩ := stands_of_keywordToken? found
  exact ⟨i, stands, before, is⟩

/-- Only a statement without a name would give a keyword in place of a name. -/
theorem nameType_ne_keyword (named : s.data.name? = some name) : s.data.nameType ≠ .keyword := by
  cases data : s.data with
  | bare =>
    rw [data] at named
    cases named
  | package | importing | definition | enumValue | field => simp [StatementData.nameType]

theorem keyword_of_mem_tokens (member : t ∈ s.tokens isWord anchor source)
    (keyword : t.type = .keyword) :
    ∃ name, s.data.name? = some name ∧
      ∃ word ∈ s.data.keywords, keywordToken? isWord anchor source name.offset word = some t := by
  obtain ⟨name, named, found | found⟩ := mem_tokens.1 member
  · exact ⟨name, named, found⟩
  · unfold nameToken? at found
    split at found
    · cases found
    · cases found
      exact absurd keyword (nameType_ne_keyword named)

/-- A name that is a slice of the source gives the one token that is not a keyword. -/
theorem filter_tokens (named : s.data.name? = some name)
    (slice : Text.slice? source name.offset name.stop = some part) (nonempty : part ≠ []) :
    (s.tokens isWord anchor source).filter (·.type ≠ .keyword) =
      [.at (anchor.walked source name.offset) part.length s.data.nameType] := by
  have length : nameLength source name = part.length := by
    simp only [nameLength, slice]
  have keywords :
      (s.data.keywords.filterMap (keywordToken? isWord anchor source name.offset)).filter
        (·.type ≠ .keyword) = [] := by
    refine List.filter_eq_nil_iff.2 fun t member => ?_
    obtain ⟨word, -, found⟩ := List.mem_filterMap.1 member
    obtain ⟨i, -, -, rfl⟩ := slice_of_keywordToken? found
    simp [Token.at]
  have positive : part.length ≠ 0 := fun zero => nonempty (List.length_eq_zero_iff.1 zero)
  have other : (Token.at (anchor.walked source name.offset) part.length s.data.nameType).type ≠
      .keyword := nameType_ne_keyword named
  unfold tokens nameToken?
  simp only [named, length, List.filter_append, keywords, if_neg positive, Option.toList_some,
    List.nil_append]
  exact List.filter_cons_of_pos (decide_eq_true other)

end Statement

namespace Engine

/-- Every keyword token covers a keyword of its statement, which stands in what the statement
took and ends before the name. A name between characters of what the statement took is covered
by the one token that is not a keyword. -/
theorem scan_covers_source {σ : Type} (isWord : Char → Bool) (e : Engine σ)
    (poll : Machine σ → Bool) (text : Text) (range : Range) (m : Machine σ)
    (short : Text.byteLength text < 0xFFFFFFFF)
    (line : range.start.line < 0x100000000) (column : range.start.column < 0x100000000) :
    let s := e.scan poll text range m
    (∀ step ∈ s.steps, ∀ t ∈ step.tokens isWord, t.type = .keyword →
      ∃ statement name word, step.result.statement = some statement ∧
        statement.data.name? = some name ∧ word ∈ statement.data.keywords ∧
        t.Covers text word.toList ∧ step.offset ≤ t.offset text ∧
        t.offset text + Text.byteLength word.toList ≤
          step.offset + Text.byteLength step.source ∧
        t.offset text + Text.byteLength word.toList ≤ step.offset + name.offset) ∧
    ∀ step ∈ s.steps, ∀ statement name, step.result.statement = some statement →
      statement.data.name? = some name → name.value ≠ [] →
      Text.IsBoundary step.source name.offset → Text.IsBoundary step.source name.stop →
      ∃ t part, (step.tokens isWord).filter (·.type ≠ .keyword) = [t] ∧
        Text.slice? step.source name.offset name.stop = some part ∧
        t.offset text = step.offset + name.offset ∧ t.Covers text part := by
  intro s
  constructor
  · intro step member t produced keyword
    obtain ⟨rest, placed⟩ := placed_of_mem_steps_scan short line column member
    unfold Step.tokens at produced
    split at produced
    case h_1 => cases produced
    case h_2 statement said =>
      obtain ⟨name, named, word, listed, found⟩ :=
        Statement.keyword_of_mem_tokens produced keyword
      obtain ⟨i, slice, before, rfl⟩ := Statement.slice_of_keywordToken? found
      obtain ⟨offset, covers⟩ := placed.covers short .keyword slice
      have inside := (Text.le_of_slice? slice).2
      exact ⟨statement, name, word, said, named, listed, covers, by omega, by omega, by omega⟩
  · intro step member statement name said named nonempty first last
    obtain ⟨rest, placed⟩ := placed_of_mem_steps_scan short line column member
    have stop : name.stop = name.offset + name.value.length := rfl
    obtain ⟨part, slice⟩ := Text.exists_slice? first last (by omega)
    have length := (Text.le_of_slice? slice).1
    have something : part ≠ [] := by
      rintro rfl
      have positive := List.length_pos_iff.2 nonempty
      rw [Text.byteLength_nil] at length
      omega
    rw [← length] at slice
    obtain ⟨offset, covers⟩ := placed.covers short statement.data.nameType slice
    rw [length] at slice
    refine ⟨_, part, ?_, slice, offset, covers⟩
    simp only [Step.tokens, said]
    exact Statement.filter_tokens named slice something

/-- A scan of a name with a character of two bytes. -/
theorem scan_covers_source_of_enum :
    let m := Linear.machine 96 96 ({} : Grammar.State)
    let text := "enum Ä;".toList
    let range := wholeRange text
    let s := Grammar.engine.scan (fun _ => false) text range m
    Text.byteLength text < 0xFFFFFFFF ∧ range.start.line < 0x100000000 ∧
      range.start.column < 0x100000000 ∧ (s.tokens Text.isWordChar).length = 2 ∧
      ∀ step ∈ s.steps, ∀ t ∈ step.tokens Text.isWordChar, t.type = .keyword →
        ∃ statement word, step.result.statement = some statement ∧
          word ∈ statement.data.keywords ∧ t.Covers text word.toList := by
  intro m text range s
  have short : Text.byteLength text < 0xFFFFFFFF := by decide
  have found : (s.tokens Text.isWordChar).length = 2 := by decide +kernel
  refine ⟨short, by decide, by decide, found, fun step member t produced keyword => ?_⟩
  obtain ⟨statement, name, word, said, named, listed, covers, -⟩ :=
    (scan_covers_source Text.isWordChar Grammar.engine (fun _ => false) text range m short
      (by decide) (by decide)).1 step member t produced keyword
  exact ⟨statement, word, said, listed, covers⟩

end Engine

end SchemaHighlighter
