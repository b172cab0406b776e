import SchemaHighlighter.Engine.Grammar
import SchemaHighlighter.Proofs.Engine.Pure
import SchemaHighlighter.Proofs.Text.Utf8

/-! # The grammar engine is pure

What the grammar reads from a text stands in it, so the answers of its engine have a meaning,
and a statement that ends inside the beginning of a text is not changed by what follows. -/
namespace SchemaHighlighter

namespace Grammar

/-- The word stands in the text at its own offset. -/
def Word.StandsIn (w : Word) (text : Text) : Prop :=
  ∃ before after, text = before ++ w.text ++ after ∧ Text.byteLength before = w.offset

def Word.span (w : Word) : SourceSpan where
  value := (Text.encode w.text).map fun b => Char.ofNat b.toNat
  offset := w.offset

theorem Word.StandsIn.append {w : Word} {text : Text} (h : w.StandsIn text) (more : Text) :
    w.StandsIn (text ++ more) := by
  obtain ⟨before, after, rfl, length⟩ := h
  exact ⟨before, after ++ more, by simp only [List.append_assoc], length⟩

theorem Word.StandsIn.span? {w : Word} {text : Text} (h : w.StandsIn text) :
    w.view.span? (Text.encode text) = some w.span := by
  obtain ⟨before, after, rfl, length⟩ := h
  have encoded : Text.encode (before ++ w.text ++ after) =
      Text.encode before ++ (Text.encode w.text ++ Text.encode after) := by
    simp only [Text.encode, List.flatMap_append, List.append_assoc]
  have first : w.offset = (Text.encode before).length := by rw [Text.length_encode, length]
  have second : Text.byteLength w.text = (Text.encode w.text).length :=
    (Text.length_encode w.text).symm
  rw [Word.view, View.span?, encoded, if_pos ?_, first, List.drop_left, second, List.take_left]
  · rw [Word.span, first]
  · rw [first, second]
    simp only [List.length_append]
    omega

/-- The word begun, read backwards, is what `before` ends in. -/
def Word.Ends (w : Word) (before : Text) : Prop :=
  ∃ first, before = first ++ w.text.reverse ∧ Text.byteLength first = w.offset

theorem standsIn_of_ends {before : Text} {begun : Option Word} (ends : ∀ w ∈ begun, w.Ends before)
    {w : Word} (member : w ∈ (begun.map fun w => { w with text := w.text.reverse }).toList)
    (rest : Text) : w.StandsIn (before ++ rest) := by
  obtain ⟨g, is, rfl⟩ := Option.map_eq_some_iff.1 (Option.mem_toList.1 member)
  obtain ⟨first, rfl, length⟩ := ends g is
  exact ⟨first, rest, rfl, length⟩

theorem standsIn_of_mem_wordsFrom {before rest : Text} {begun : Option Word}
    (ends : ∀ w ∈ begun, w.Ends before) {w : Word}
    (found : w ∈ wordsFrom (Text.byteLength before) begun rest) : w.StandsIn (before ++ rest) := by
  induction rest generalizing before begun with
  | nil => exact standsIn_of_ends ends found []
  | cons c rest ih =>
    have next : Text.byteLength before + c.utf8Size = Text.byteLength (before ++ [c]) := by
      simp only [Text.byteLength_append, Text.byteLength_cons, Text.byteLength_nil, Nat.add_zero]
    have shifted : before ++ c :: rest = (before ++ [c]) ++ rest := by
      rw [List.append_assoc, List.singleton_append]
    simp only [wordsFrom, next] at found
    split at found
    case isTrue divides =>
      rcases List.mem_append.1 found with found | later
      · rcases List.mem_append.1 found with ended | sign
        · exact standsIn_of_ends ends ended _
        · split at sign
          case isTrue equals =>
            rw [List.mem_singleton.1 sign, equals]
            exact ⟨before, rest, by rw [List.append_assoc, List.singleton_append], rfl⟩
          case isFalse => cases sign
      · rw [shifted]
        exact ih (by rintro _ ⟨⟩) later
    case isFalse =>
      rw [shifted]
      refine ih ?_ found
      rintro _ ⟨⟩
      cases begun with
      | none => exact ⟨before, rfl, rfl⟩
      | some w =>
        obtain ⟨first, rfl, length⟩ := ends w rfl
        exact ⟨first, by simp only [List.reverse_cons, List.append_assoc], length⟩

theorem standsIn_of_mem_words {before text : Text} {w : Word}
    (found : w ∈ words (Text.byteLength before) text) : w.StandsIn (before ++ text) :=
  standsIn_of_mem_wordsFrom (by rintro _ ⟨⟩) found

namespace Phrase

/-- The name of the phrase stands in the text, and its value is a signed word. -/
def IsIn (text : Text) : Phrase → Prop
  | package _ _ name | importing _ name | definition _ _ name | field _ _ name =>
    name.StandsIn text
  | enumValue name value => name.StandsIn text ∧ signedWord value = value
  | blockEnd | generates | userField => True

def data : Phrase → StatementData
  | blockEnd => .bare .none
  | package _ main name => .package main.isSome name.span
  | importing _ name => .importing name.span
  | definition d _ name => .definition d name.span
  | generates => .bare .systemGenerates
  | enumValue name value => .enumValue name.span value
  | field type _ name => .field (some type) name.span 0
  | userField => .bare .userTypeField

variable {phrase : Phrase} {text : Text}

theorem IsIn.append (h : phrase.IsIn text) (more : Text) : phrase.IsIn (text ++ more) := by
  cases phrase with
  | package | importing | definition | field => exact Word.StandsIn.append h more
  | enumValue => exact ⟨h.1.append more, h.2⟩
  | blockEnd | generates | userField => trivial

theorem signedWord_of_integer? {text : Text} {value : Int} (h : integer? text = some value) :
    signedWord value = value := by
  simp only [integer?] at h
  -- the three ways to give a sign end in the same check
  split at h <;>
  · obtain ⟨n, -, h⟩ := Option.bind_eq_some_iff.1 h
    split at h
    case isTrue range =>
      cases h
      exact signedWord_of_range range.1 range.2
    case isFalse => cases h

theorem isIn_of_ofWords? {words : List Word} (stand : ∀ w ∈ words, w.StandsIn text)
    (h : ofWords? words = some phrase) : phrase.IsIn text := by
  unfold ofWords? at h
  split at h
  case h_1 =>
    split at h <;> cases h
    trivial
  case h_2 w name =>
    have named : name.StandsIn text := stand name (by simp)
    split at h
    · cases h; exact named
    split at h
    · cases h; exact named
    split at h
    · cases h; exact named
    split at h <;> cases h
    · exact named
    · trivial
  case h_3 w second third =>
    split at h
    · cases h; exact stand third (by simp)
    split at h
    · obtain ⟨value, read, rfl⟩ := Option.map_eq_some_iff.1 h
      exact ⟨stand w (by simp), signedWord_of_integer? read⟩
    · cases h
  case h_4 => cases h

theorem meaning?_draft (id : Int) (h : phrase.IsIn text) :
    (Draft.mk id phrase.kind.toRaw phrase.payload).meaning? (Text.encode text) =
      some phrase.data := by
  unfold Draft.meaning?
  simp only [StatementKind.ofRaw_toRaw]
  cases phrase with
  | package _ main name =>
    cases main <;> simp only [kind, payload, data, Word.StandsIn.span? h] <;> rfl
  | importing => simp only [kind, payload, data, Word.StandsIn.span? h, Option.map_some]
  | definition d =>
    cases d <;>
      simp only [kind, DefinitionKind.kind, payload, data, Word.StandsIn.span? h, Option.map_some]
  | enumValue => simp only [kind, payload, data, h.1.span?, h.2, Option.map_some]
  | field type =>
    have code : signedWord type.toRaw = type.toRaw := by cases type <;> rfl
    simp only [kind, payload, data, Word.StandsIn.span? h, Option.map_some, code,
      BuiltinType.ofRaw?_toRaw]
    rfl
  | blockEnd | generates | userField => rfl

end Phrase

section Parse

variable {text rest : Text} {c last : Char}

/-- What the text before `last`, which ends a statement, comes to. -/
def ended (start : Nat) (inner : Text) (last : Char) : Parsed :=
  match Phrase.ofWords? (words start inner) with
  | some phrase =>
    .statement (if last = '{' then .blockBegin else .ok) (start + Text.byteLength inner + 1) phrase
  | none => .failure .syntaxError (some (.within start (Text.byteLength inner)))

theorem parse_of_blank (body : text.dropWhile Text.isBlank = []) :
    parse text = .failure .unexpectedEof none := by
  simp only [parse, body]

theorem parse_of_blockEnd (body : text.dropWhile Text.isBlank = '}' :: rest) :
    parse text =
      .statement .blockEnd (Text.byteLength (text.takeWhile Text.isBlank) + 1) .blockEnd := by
  simp only [parse, body, if_true]

theorem parse_of_open (body : text.dropWhile Text.isBlank = c :: rest) (inside : c ≠ '}')
    (left : (c :: rest).dropWhile (!endsStatement ·) = []) :
    parse text = .failure .expectedStatementEnd
      ((words (Text.byteLength (text.takeWhile Text.isBlank)) (c :: rest)).head?.map
        Word.view) := by
  simp only [parse, body, if_neg inside, left]

theorem parse_of_ended {after : Text} (body : text.dropWhile Text.isBlank = c :: rest)
    (inside : c ≠ '}') (left : (c :: rest).dropWhile (!endsStatement ·) = last :: after) :
    parse text = ended (Text.byteLength (text.takeWhile Text.isBlank))
      ((c :: rest).takeWhile (!endsStatement ·)) last := by
  cases read : Phrase.ofWords? (words (Text.byteLength (text.takeWhile Text.isBlank))
      ((c :: rest).takeWhile (!endsStatement ·))) <;>
    simp only [parse, body, if_neg inside, left, ended, read]

/-- What ends a stretch of a text ends it whatever follows the text. -/
theorem dropWhile_append_of_cons {p : Char → Bool} (more : Text)
    (left : text.dropWhile p = c :: rest) :
    (text ++ more).takeWhile p = text.takeWhile p ∧
      (text ++ more).dropWhile p = c :: (rest ++ more) := by
  constructor
  · rw [List.takeWhile_append, if_neg]
    intro whole
    have length := congrArg List.length (List.takeWhile_append_dropWhile (p := p) (l := text))
    rw [List.length_append, left, List.length_cons] at length
    omega
  · rw [List.dropWhile_append, left]
    rfl

/-- The beginning of a text ends inside a statement, or is parsed as all of the text is. -/
theorem parse_append (text more : Text) :
    (∃ code location, parse text = .failure code location ∧ code.needsMoreInput = true) ∨
      parse text = parse (text ++ more) := by
  cases body : text.dropWhile Text.isBlank with
  | nil => exact .inl ⟨_, _, parse_of_blank body, rfl⟩
  | cons c rest =>
    obtain ⟨blanks, body'⟩ := dropWhile_append_of_cons more body
    by_cases inside : c = '}'
    · subst inside
      rw [parse_of_blockEnd body, parse_of_blockEnd body', blanks]
      exact .inr rfl
    cases left : (c :: rest).dropWhile (!endsStatement ·) with
    | nil => exact .inl ⟨_, _, parse_of_open body inside left, rfl⟩
    | cons last after =>
      obtain ⟨inner, left'⟩ := dropWhile_append_of_cons more left
      rw [parse_of_ended body inside left, parse_of_ended body' inside left', blanks]
      rw [← List.cons_append, inner]
      exact .inr rfl

/-- A statement takes no more than the text and says what stands there, and a failure is placed
at a stretch of the text. -/
def Parsed.Sound (text : Text) : Parsed → Prop
  | .statement code consumed phrase =>
    code.isResumable = true ∧ consumed ≤ Text.byteLength text ∧ phrase.IsIn text
  | .failure code location =>
    code.isResumable = false ∧ ∀ v ∈ location, ∃ w : Word, w.StandsIn text ∧ v = w.view

theorem utf8Size_of_endsStatement (ends : endsStatement last = true) : last.utf8Size = 1 := by
  simp only [endsStatement, Bool.or_eq_true, decide_eq_true_eq] at ends
  rcases ends with rfl | rfl <;> rfl

theorem sound_ended (blanks inner after : Text) (ends : endsStatement last = true) :
    (ended (Text.byteLength blanks) inner last).Sound (blanks ++ inner ++ last :: after) := by
  have one := utf8Size_of_endsStatement ends
  unfold ended
  split
  case h_1 phrase read =>
    refine ⟨by split <;> rfl, ?_, ?_⟩
    · simp only [Text.byteLength_append, Text.byteLength_cons, one]
      omega
    · exact (Phrase.isIn_of_ofWords? (fun w => standsIn_of_mem_words) read).append _
  case h_2 =>
    refine ⟨rfl, ?_⟩
    rintro _ ⟨⟩
    exact ⟨⟨Text.byteLength blanks, inner⟩, ⟨blanks, _, rfl, rfl⟩, rfl⟩

theorem sound_parse (text : Text) : (parse text).Sound text := by
  have split := List.takeWhile_append_dropWhile (p := Text.isBlank) (l := text)
  cases body : text.dropWhile Text.isBlank with
  | nil =>
    rw [parse_of_blank body]
    exact ⟨rfl, by rintro _ ⟨⟩⟩
  | cons c rest =>
    rw [body] at split
    by_cases inside : c = '}'
    · subst inside
      rw [parse_of_blockEnd body]
      have length := congrArg Text.byteLength split
      simp only [Text.byteLength_append, Text.byteLength_cons] at length
      have := Char.utf8Size_pos '}'
      exact ⟨rfl, by omega, trivial⟩
    have split' := List.takeWhile_append_dropWhile (p := (!endsStatement ·)) (l := c :: rest)
    cases left : (c :: rest).dropWhile (!endsStatement ·) with
    | nil =>
      rw [parse_of_open body inside left]
      refine ⟨rfl, fun v found => ?_⟩
      obtain ⟨w, first, rfl⟩ := Option.map_eq_some_iff.1 found
      have stands := standsIn_of_mem_words (List.mem_of_head? first)
      rw [split] at stands
      exact ⟨w, stands, rfl⟩
    | cons last after =>
      have ends : endsStatement last = true := by
        have := List.head?_dropWhile_not (!endsStatement ·) (c :: rest)
        simpa [left] using this
      have sound := sound_ended (text.takeWhile Text.isBlank)
        ((c :: rest).takeWhile (!endsStatement ·)) after ends
      rw [List.append_assoc, ← left, split', split] at sound
      rw [parse_of_ended body inside left]
      exact sound

end Parse

/-- What is read of a text, with zero for the id of its statement. -/
def Parsed.result (text : Text) : Parsed → ParseResult
  | .statement code consumed phrase => {
      status := { code }
      consumed := consumed
      statement := some { id := 0, data := phrase.data } }
  | .failure code location => {
      status := {
        code
        errorLocation :=
          ((location.bind (View.span? (Text.encode text))).filter (·.value ≠ [])).getD {} }
      consumed := 0
      statement := none }

/-- The answers of the grammar as a function of the text. -/
def result (text : Text) : ParseResult := (parse text).result text

theorem result_append {text : Text} {parsed : Parsed} (sound : parsed.Sound text) (more : Text) :
    parsed.result text = parsed.result (text ++ more) := by
  cases parsed with
  | statement => rfl
  | failure code location =>
    cases location with
    | none => rfl
    | some v =>
      obtain ⟨w, stands, rfl⟩ := sound.2 v rfl
      simp only [Parsed.result, Option.bind_some, stands.span?, (stands.append more).span?]

theorem prefixStable_result : PrefixStable result := by
  rintro beginning _ ⟨more, rfl⟩
  rcases parse_append beginning more with ⟨code, location, failed, needs⟩ | same
  · left
    rw [result, failed]
    exact needs
  · right
    rw [result, result, ← same]
    exact result_append (sound_parse beginning) more

def Parsed.answer (id : Int) : Parsed → Answer
  | .statement code consumed phrase => {
      code := code.toRaw
      statement := some { id, kind := phrase.kind.toRaw, payload := phrase.payload }
      count := consumed }
  | .failure code location => { code := code.toRaw, location }

theorem signedWord_toRaw_code (code : StatusCode) : signedWord code.toRaw = code.toRaw := by
  cases code <;> rfl

theorem signedWord_toRaw_kind (kind : StatementKind) : signedWord kind.toRaw = kind.toRaw := by
  cases kind <;> rfl

theorem encodable_answer (id : Int) (parsed : Parsed) : (parsed.answer id).Encodable := by
  cases parsed with
  | statement code consumed phrase =>
    refine ⟨signedWord_toRaw_code code, ?_, fun base => ?_⟩
    · rintro _ ⟨⟩
      exact signedWord_toRaw_kind phrase.kind
    · cases phrase <;>
        simp [Parsed.answer, Answer.statementWords, Phrase.payload, Field.toWords,
          View.length_toWords, Statement.recordSize]
  | failure code location =>
    refine ⟨signedWord_toRaw_code code, ?_, fun _ => Nat.zero_le _⟩
    rintro _ ⟨⟩

theorem meaning?_answer (id : Int) {text : Text} {parsed : Parsed} (sound : parsed.Sound text) :
    ((parsed.answer id).meaning? (Text.encode text)).map ParseResult.withoutId =
      some (parsed.result text) := by
  cases parsed with
  | statement code consumed phrase =>
    obtain ⟨resumable, within, stands⟩ := sound
    have count : clampCount consumed (Text.encode text).length = consumed := by
      rw [clampCount, Int.toNat_natCast, Text.length_encode]
      exact Nat.min_eq_left within
    have quiet : countLog consumed (Text.encode text).length = [] := by
      rw [Text.length_encode]
      exact if_neg (by omega)
    simp [Parsed.answer, Answer.meaning?, Answer.status?, Answer.statement?,
      StatusCode.ofRaw_toRaw, resumable, Phrase.meaning?_draft id stands, count, quiet,
      Parsed.result, ParseResult.withoutId]
  | failure code location =>
    obtain ⟨terminal, places⟩ := sound
    cases location with
    | none =>
      simp [Parsed.answer, Answer.meaning?, Answer.status?, Answer.statement?,
        StatusCode.ofRaw_toRaw, terminal, clampCount, countLog, Parsed.result,
        ParseResult.withoutId]
    | some v =>
      obtain ⟨w, stands, rfl⟩ := places v rfl
      by_cases empty : w.span.value = [] <;>
      simp [Parsed.answer, Answer.meaning?, Answer.status?, Answer.statement?,
        StatusCode.ofRaw_toRaw, terminal, stands.span?, empty, Option.filter_some, clampCount,
        countLog, Parsed.result, ParseResult.withoutId]

theorem answer_of_faultless {s : Linear State} (text : Text) (faultless : s.own.faults = {}) :
    (answer (Text.encode text) s).1 = (parse text).answer s.own.nextId ∧
      (answer (Text.encode text) s).2.scratch = s.scratch ∧
      (answer (Text.encode text) s).2.own.faults = {} := by
  obtain ⟨scratch, cancelled, faults, nextId, calls⟩ := s
  cases faultless
  unfold answer
  rw [Text.decode_encode]
  cases parse text with
  | statement _ _ phrase => cases phrase <;> exact ⟨rfl, rfl, rfl⟩
  | failure => exact ⟨rfl, rfl, rfl⟩

theorem pure_engine : Engine.Pure result (fun s => s.faults = {}) engine.parse where
  bounded text := by
    have sound := sound_parse text
    unfold result
    cases parsed : parse text with
    | statement code consumed phrase =>
      rw [parsed] at sound
      exact sound.2.1
    | failure => exact Nat.zero_le _
  answers text call m _ prepared faultless := by
    obtain ⟨answered, scratch, faultless'⟩ := answer_of_faultless text faultless
    have encodable := encodable_answer m.control.own.nextId (parse text)
    refine ⟨_, _, _, encodable, meaning?_answer _ (sound_parse text), ?_, .refl prepared encodable,
      ?_, faultless', ?_⟩
    · unfold result
      cases parse text <;> rfl
    · rw [scratch]
    · exact Engine.answering_parse prepared (Prod.ext answered rfl) encodable

end Grammar

end SchemaHighlighter
