import SchemaHighlighter.Proofs.Engine.Words
import SchemaHighlighter.Proofs.Highlight.Extension
import SchemaHighlighter.Proofs.Highlight.Overlap

/-! # The words that a scan marks

A scan does not know where the keywords of a statement were: it looks for them again, before the
name. What it finds are the very words that the grammar read, and their tokens are placed in the
whole text. -/
namespace SchemaHighlighter.Grammar

variable {offset : Nat} {text source before rest more : Text} {words : List Word}
  {w name : Word} {c : Char} {isWord : Char → Bool}

theorem Divides.isWord_eq_false (known : Text.ContinuesIdentifiers isWord) (divides : Divides c) :
    isWord c = false := by
  rcases divides with blank | rfl
  · exact known.blank c blank
  · exact known.ascii '=' (by decide)

/-- Before a later word the search meets this one first, if its last character is in no word
between. -/
theorem findKeywordBefore_of_spelled (known : Text.ContinuesIdentifiers isWord)
    (between : List Word) (word : ∀ c ∈ w.text, isWord c = true)
    (last : w.text.getLast? = some c) (absent : ∀ v ∈ between, c ∉ v.text)
    (left : ∀ d ∈ before.getLast?, isWord d = false)
    (divided : ∀ d ∈ rest.head?, Divides d)
    (spelled : Spelled (Text.byteLength before + Text.byteLength w.text)
      (between ++ name :: words) rest) :
    Text.findKeywordBefore isWord (before ++ w.text ++ rest ++ more) w.text name.offset =
      some (Text.byteLength before) := by
  obtain ⟨gap, after, rfl, place, nonempty, filled⟩ := spelled.split
  have limit : name.offset = Text.byteLength (before ++ w.text ++ gap) := by
    rw [← place, Text.byteLength_append, Text.byteLength_append]
  have parts : before ++ w.text ++ (gap ++ name.text ++ after) ++ more =
      before ++ w.text ++ gap ++ (name.text ++ after ++ more) := by
    simp only [List.append_assoc]
  rw [limit, parts]
  apply Text.findKeywordBefore_append last
  · intro member
    rcases filled c member with blank | ⟨v, listed, member⟩
    · have letter := word c (List.mem_of_getLast? last)
      rw [known.blank c blank] at letter
      cases letter
    · exact absent v listed member
  · exact left
  · intro d first
    apply (divided d ?_).isWord_eq_false known
    have something : gap ++ name.text ++ after ≠ [] := by
      simp [nonempty]
    rw [← List.append_assoc, ← List.append_assoc, List.head?_append_of_ne_nil _ something] at first
    exact first

/-- The token of a word of a statement whose text is `source` and begins at `anchor`. -/
def Word.mark (anchor : Position) (source : Text) (w : Word) (type : TokenType) : Token :=
  .at (anchor.walked source w.offset) w.text.length type

variable {anchor : Position} {limit : Nat} {word : String}

theorem nameToken?_of_standsIn (stands : w.StandsIn source) (nonempty : w.text ≠ [])
    (type : TokenType) :
    nameToken? anchor source w.span type = some (w.mark anchor source type) := by
  have stop : w.span.stop = w.offset + Text.byteLength w.text := by
    rw [SourceSpan.stop, Word.span, List.length_map, Text.length_encode]
  have slice : Text.slice? source w.span.offset w.span.stop = some w.text := by
    obtain ⟨before, after, split, length⟩ := stands
    rw [stop]
    exact Text.slice?_eq_some_iff.2 ⟨before, after, split, length, rfl⟩
  have length : nameLength source w.span = w.text.length := by
    rw [nameLength, slice]
  have positive : ¬ w.text.length = 0 := fun zero => nonempty (List.eq_nil_of_length_eq_zero zero)
  rw [nameToken?, length, if_neg positive]
  rfl

theorem keywordToken?_of_find (is : w.is word = true)
    (found : Text.findKeywordBefore isWord source w.text limit = some w.offset) :
    keywordToken? isWord anchor source limit word = some (w.mark anchor source .keyword) := by
  have same : w.text = word.toList := of_decide_eq_true is
  have length : word.length = w.text.length := by
    rw [same, String.length_toList]
  rw [keywordToken?, ← same, found, Option.map_some, Word.mark, length]

theorem Spelled.standsIn (spelled : Spelled 0 words text) (listed : w ∈ words) (more : Text) :
    w.StandsIn (text ++ more) ∧ w.text ≠ [] := by
  obtain ⟨between, later, rfl⟩ := List.append_of_mem listed
  obtain ⟨gap, after, rfl, place, nonempty, -⟩ := spelled.split
  refine ⟨⟨gap, after ++ more, ?_, ?_⟩, nonempty⟩
  · simp only [List.append_assoc]
  · rw [← place, Nat.zero_add]

theorem letters_of_is (known : Text.ContinuesIdentifiers isWord) (data : StatementData)
    (listed : word ∈ data.keywords) (is : w.is word = true) :
    (∀ c ∈ w.text, isWord c = true) ∧ w.text ≠ ['='] := by
  have same : w.text = word.toList := of_decide_eq_true is
  have letters : ∀ c ∈ w.text, isWord c = true := by
    rw [same]
    exact StatementData.word_of_mem_keywords known listed
  refine ⟨letters, ?_⟩
  intro sign
  have letter := letters '=' (by rw [sign]; exact .head _)
  rw [known.ascii '=' (by decide)] at letter
  cases letter

namespace Phrase

/-- The words of a phrase that are marked and what each is, in the order of their tokens. -/
def marks : Phrase → List (Word × TokenType)
  | package keyword (some main) name =>
    [(main, .keyword), (keyword, .keyword), (name, .typeName)]
  | package keyword none name => [(keyword, .keyword), (name, .typeName)]
  | importing keyword name => [(keyword, .keyword), (name, .packageName)]
  | definition _ keyword name => [(keyword, .keyword), (name, .typeName)]
  | enumValue name _ => [(name, .enumMember)]
  | field _ typeWord name => [(typeWord, .keyword), (name, .property)]
  | blockEnd | generates | userField => []

end Phrase

theorem tokens_of_keyword (known : Text.ContinuesIdentifiers isWord) {s : Statement}
    (named : s.data.name? = some name.span)
    (keywords : s.data.keywords = [word]) (is : w.is word = true)
    (spelled : Spelled 0 [w, name] text) (more : Text) :
    s.tokens isWord anchor (text ++ more) =
      [w.mark anchor (text ++ more) .keyword, name.mark anchor (text ++ more) s.data.nameType] := by
  have listed : word ∈ s.data.keywords := by
    rw [keywords]
    exact .head _
  obtain ⟨letters, sign⟩ := letters_of_is known s.data listed is
  obtain ⟨stands, nonempty⟩ := spelled.standsIn (w := name) (by simp) more
  have found : Text.findKeywordBefore isWord (text ++ more) w.text name.offset = some w.offset := by
    cases spelled with
    | @cons _ gap word rest _ blank something divided spelled =>
      have last := List.getLast?_eq_some_getLast something
      rw [Nat.zero_add] at spelled ⊢
      apply findKeywordBefore_of_spelled known [] letters last (List.forall_mem_nil _) ?_
        (divided.resolve_left sign) spelled
      intro d member
      exact known.blank d (blank d (List.mem_of_getLast? member))
  rw [Statement.tokens, named]
  simp only [keywords, List.filterMap_cons, List.filterMap_nil]
  rw [show name.span.offset = name.offset from rfl, keywordToken?_of_find is found,
    nameToken?_of_standsIn stands nonempty]
  rfl

/-- The second keyword is found although the first stands before it, and the first although the
second stands behind it. -/
theorem tokens_of_package_main (known : Text.ContinuesIdentifiers isWord) {v : Word} (id : Int)
    (is : w.is "package" = true) (is' : v.is "main" = true) (spelled : Spelled 0 [w, v, name] text)
    (more : Text) :
    (Statement.mk id (.package true name.span)).tokens isWord anchor (text ++ more) =
      [v.mark anchor (text ++ more) .keyword, w.mark anchor (text ++ more) .keyword,
        name.mark anchor (text ++ more) .typeName] := by
  obtain ⟨stands, nonempty⟩ := spelled.standsIn (w := name) (by simp) more
  obtain ⟨letters, sign⟩ := letters_of_is known (.package true name.span) (.tail _ (.head _)) is
  obtain ⟨letters', sign'⟩ := letters_of_is known (.package true name.span) (.head _) is'
  have same : w.text = "package".toList := of_decide_eq_true is
  have same' : v.text = "main".toList := of_decide_eq_true is'
  have found : Text.findKeywordBefore isWord (text ++ more) w.text name.offset = some w.offset ∧
      Text.findKeywordBefore isWord (text ++ more) v.text name.offset = some v.offset := by
    cases spelled with
    | @cons _ gap word rest _ blank something divided spelled =>
    have divided := divided.resolve_left sign
    rw [Nat.zero_add] at spelled ⊢
    constructor
    · apply findKeywordBefore_of_spelled known [v] letters (c := 'e') ?_ ?_ ?_ divided spelled
      · rw [same]
        rfl
      · intro u listed
        rw [List.mem_singleton.1 listed, same']
        decide
      · intro d member
        exact known.blank d (blank d (List.mem_of_getLast? member))
    · cases spelled with
      | @cons _ gap' word' rest' _ blank' something' divided' spelled =>
      have apart : gap' ≠ [] := by
        rintro rfl
        have first := divided 'm' (by rw [show word' = "main".toList from same']; rfl)
        exact absurd first (by decide)
      have parts : gap ++ word ++ (gap' ++ word' ++ rest') ++ more =
          gap ++ word ++ gap' ++ word' ++ rest' ++ more := by
        simp only [List.append_assoc]
      have place : Text.byteLength gap + Text.byteLength word + Text.byteLength gap' =
          Text.byteLength (gap ++ word ++ gap') := by
        rw [Text.byteLength_append, Text.byteLength_append]
      rw [place] at spelled ⊢
      rw [parts]
      have last := List.getLast?_eq_some_getLast something'
      apply findKeywordBefore_of_spelled known [] letters' last (List.forall_mem_nil _) ?_
        (divided'.resolve_left sign') spelled
      intro d member
      rw [List.getLast?_append_of_ne_nil _ apart] at member
      exact known.blank d (blank' d (List.mem_of_getLast? member))
  obtain ⟨first, second⟩ := found
  simp only [Statement.tokens, StatementData.name?, StatementData.keywords, if_true,
    List.filterMap_cons, List.filterMap_nil]
  rw [show name.span.offset = name.offset from rfl, keywordToken?_of_find is first,
    keywordToken?_of_find is' second, nameToken?_of_standsIn stands nonempty]
  rfl

theorem tokens_of_tells (known : Text.ContinuesIdentifiers isWord) {phrase : Phrase} (id : Int)
    (told : Tells phrase source) :
    (Statement.mk id phrase.data).tokens isWord anchor source =
      phrase.marks.map fun mark => mark.1.mark anchor source mark.2 := by
  cases told with
  | blockEnd => rfl
  | @words _ words inner last spelled read =>
    unfold Phrase.ofWords? at read
    split at read
    case h_1 =>
      split at read <;> cases read
      rfl
    case h_2 w name =>
      split at read
      case isTrue is =>
        cases read
        exact tokens_of_keyword known rfl rfl is spelled [last]
      split at read
      case isTrue is =>
        cases read
        exact tokens_of_keyword known rfl rfl is spelled [last]
      split at read
      case h_1 d found =>
        cases read
        have is := List.find?_some found
        exact tokens_of_keyword known rfl rfl is spelled [last]
      split at read
      case h_1 type found =>
        cases read
        have is := List.find?_some found
        exact tokens_of_keyword known rfl rfl is spelled [last]
      case h_2 =>
        cases read
        rfl
    case h_3 w second third =>
      split at read
      case isTrue both =>
        cases read
        obtain ⟨is, is'⟩ := Bool.and_eq_true_iff.1 both
        exact tokens_of_package_main known id is is' spelled [last]
      split at read
      case isTrue =>
        obtain ⟨value, -, rfl⟩ := Option.map_eq_some_iff.1 read
        obtain ⟨stands, nonempty⟩ := spelled.standsIn (.head _) [last]
        exact congrArg Option.toList (nameToken?_of_standsIn stands nonempty .enumMember)
      case isFalse => cases read
    case h_4 => cases read

theorem Phrase.mem_of_mem_marks {phrase : Phrase} {mark : Word × TokenType}
    (read : Phrase.ofWords? words = some phrase) (marked : mark ∈ phrase.marks) :
    mark.1 ∈ words := by
  unfold Phrase.ofWords? at read
  split at read
  case h_1 =>
    split at read <;> cases read
    cases marked
  case h_2 w name =>
    have both : ∀ type, mark ∈ [(w, .keyword), (name, type)] → mark.1 ∈ [w, name] :=
      fun _ marked => List.mem_map_of_mem (f := Prod.fst) marked
    split at read
    · cases read
      exact both _ marked
    split at read
    · cases read
      exact both _ marked
    split at read
    · cases read
      exact both _ marked
    split at read <;> cases read
    · exact both _ marked
    · cases marked
  case h_3 w second third =>
    split at read
    · cases read
      have swapped : mark.1 ∈ [second, w, third] := List.mem_map_of_mem (f := Prod.fst) marked
      exact (List.Perm.swap w second [third]).mem_iff.1 swapped
    split at read
    · obtain ⟨value, -, rfl⟩ := Option.map_eq_some_iff.1 read
      rw [List.mem_singleton.1 marked]
      exact .head _
    · cases read
  case h_4 => cases read

theorem standsIn_of_tells {phrase : Phrase} (told : Tells phrase source) {mark : Word × TokenType}
    (marked : mark ∈ phrase.marks) : mark.1.StandsIn source := by
  cases told with
  | blockEnd => cases marked
  | words last spelled read =>
    exact (spelled.standsIn (Phrase.mem_of_mem_marks read marked) [last]).1

/-- The statements of a text that begins at byte `offset`, each with the byte where the blanks
before it begin. -/
def phrases (offset : Nat) (rest : Text) : List (Nat × Phrase) :=
  match _ : parse rest with
  | .statement _ consumed phrase =>
    (offset, phrase) :: phrases (offset + consumed) (Text.dropBytes consumed rest)
  | .failure .. => []
termination_by rest.length
decreasing_by
  obtain ⟨source, after, rfl, something, rfl, -⟩ := tells_of_parse ‹_›
  have moved := List.length_pos_iff.2 something
  rw [Text.dropBytes_byteLength_append, List.length_append]
  omega

theorem phrases_of_statement {code : StatusCode} {consumed : Nat} {phrase : Phrase}
    (read : parse rest = .statement code consumed phrase) (offset : Nat) :
    phrases offset rest =
      (offset, phrase) :: phrases (offset + consumed) (Text.dropBytes consumed rest) := by
  rw [phrases]
  split
  case h_1 read' =>
    rw [read] at read'
    cases read'
    rfl
  case h_2 read' =>
    rw [read] at read'
    cases read'

theorem phrases_of_failure {code : StatusCode} {location : Option View}
    (read : parse rest = .failure code location) (offset : Nat) : phrases offset rest = [] := by
  rw [phrases]
  split
  case h_1 read' =>
    rw [read] at read'
    cases read'
  case h_2 => rfl

def Word.shift (n : Nat) (w : Word) : Word := { w with offset := n + w.offset }

/-- What is marked of a statement that begins at byte `offset`. -/
def Phrase.marksFrom (offset : Nat) (phrase : Phrase) : List (Word × TokenType) :=
  phrase.marks.map fun mark => (mark.1.shift offset, mark.2)

/-- What is marked of the statements of `rest`, which begins at byte `offset`. -/
def marksFrom (offset : Nat) (rest : Text) : List (Word × TokenType) :=
  (phrases offset rest).flatMap fun found => found.2.marksFrom found.1

/-- What the grammar marks in a text: words of the text, and what they are. -/
def marks (text : Text) : List (Word × TokenType) := marksFrom 0 text

theorem marksFrom_of_statement {code : StatusCode} {consumed : Nat} {phrase : Phrase}
    (read : parse rest = .statement code consumed phrase) (offset : Nat) :
    marksFrom offset rest =
      phrase.marksFrom offset ++ marksFrom (offset + consumed) (Text.dropBytes consumed rest) := by
  rw [marksFrom, phrases_of_statement read, List.flatMap_cons]
  rfl

theorem marksFrom_of_failure {code : StatusCode} {location : Option View}
    (read : parse rest = .failure code location) (offset : Nat) : marksFrom offset rest = [] := by
  rw [marksFrom, phrases_of_failure read]
  rfl

/-- The token of a word that stands in `text`: the line breaks before it, the characters since the
last of them, and its own length in characters. -/
def Word.token (text : Text) (w : Word) (type : TokenType) : Token :=
  let before := Text.takeBytes w.offset text
  ⟨before.count '\n', (Text.lastLine before).length, w.text.length, type⟩

theorem length_lastLine_le (text : Text) : (Text.lastLine text).length ≤ text.length := by
  rw [Text.lastLine, List.length_reverse]
  exact Nat.le_trans (List.takeWhile_prefix _).length_le (Nat.le_of_eq List.length_reverse)

theorem token_shift {passed after : Text} (stands : w.StandsIn source)
    (short : Text.byteLength (passed ++ source ++ after) < 0x100000000) (type : TokenType) :
    (w.shift (Text.byteLength passed)).token (passed ++ source ++ after) type =
      w.mark (Text.endPosition passed) source type := by
  obtain ⟨before, behind, rfl, length⟩ := stands
  have upTo : Text.takeBytes (Text.byteLength passed + w.offset)
      (passed ++ (before ++ w.text ++ behind) ++ after) = passed ++ before := by
    have parts : passed ++ (before ++ w.text ++ behind) ++ after =
        passed ++ before ++ (w.text ++ behind ++ after) := by
      simp only [List.append_assoc]
    rw [← length, ← Text.byteLength_append, parts, Text.takeBytes_byteLength_append]
  have upTo' : Text.takeBytes w.offset (before ++ w.text ++ behind) = before := by
    rw [← length, List.append_assoc, Text.takeBytes_byteLength_append]
  have whole := Text.length_le_byteLength (passed ++ (before ++ w.text ++ behind) ++ after)
  have line := List.count_le_length (a := '\n') (l := passed ++ before)
  have column := length_lastLine_le (passed ++ before)
  simp only [List.length_append] at whole line column
  rw [Word.mark, Position.walked, upTo', Text.walk_endPosition, Token.at, Text.endPosition]
  simp only [Word.token, Word.shift, upTo]
  rw [Nat.mod_eq_of_lt (by omega), Nat.mod_eq_of_lt (by omega), Nat.mod_eq_of_lt (by omega)]

theorem standsIn_shift {passed after : Text} (stands : w.StandsIn source) :
    (w.shift (Text.byteLength passed)).StandsIn (passed ++ source ++ after) := by
  obtain ⟨before, behind, rfl, length⟩ := stands
  refine ⟨passed ++ before, behind ++ after, ?_, ?_⟩
  · simp only [Word.shift, List.append_assoc]
  · rw [Text.byteLength_append, length, Word.shift]

theorem taken_of_parse {code : StatusCode} {consumed : Nat} {phrase : Phrase}
    (read : parse rest = .statement code consumed phrase) :
    ∃ source after, rest = source ++ after ∧ source ≠ [] ∧ Text.byteLength source = consumed ∧
      Tells phrase source ∧ Text.takeBytes (result rest).consumed rest = source ∧
      (result rest).status.code.isResumable = true := by
  obtain ⟨source, after, split, nonempty, length, told⟩ := tells_of_parse read
  have sound := sound_parse rest
  rw [read] at sound
  refine ⟨source, after, split, nonempty, length, told, ?_, ?_⟩
  · rw [result, read, Parsed.result, ← length, split]
    exact Text.takeBytes_byteLength_append source after
  · rw [result, read]
    exact sound.1

theorem tokens_of_marksFrom (known : Text.ContinuesIdentifiers isWord) {phrase : Phrase}
    {passed after : Text} (told : Tells phrase source)
    (short : Text.byteLength (passed ++ source ++ after) < 0x100000000) (id : Int) :
    (Statement.mk id phrase.data).tokens isWord (Text.endPosition passed) source =
        (phrase.marksFrom (Text.byteLength passed)).map
          (fun mark => mark.1.token (passed ++ source ++ after) mark.2) ∧
      ∀ mark ∈ phrase.marksFrom (Text.byteLength passed),
        mark.1.StandsIn (passed ++ source ++ after) := by
  constructor
  · rw [tokens_of_tells known id told, Phrase.marksFrom, List.map_map]
    apply List.map_congr_left
    intro mark marked
    exact (token_shift (standsIn_of_tells told marked) short mark.2).symm
  · intro mark marked
    obtain ⟨own, member, rfl⟩ := List.mem_map.1 marked
    exact standsIn_shift (standsIn_of_tells told member)

/-- From any statement on, the tokens are those of the words that the grammar marks. -/
theorem tokens_stepsFrom (known : Text.ContinuesIdentifiers isWord) {passed : Text}
    (short : Text.byteLength (passed ++ rest) < 0x100000000) {cursor : Position}
    (start : offset = Text.byteLength passed) (place : cursor = Text.endPosition passed) :
    (Reference.stepsFrom result offset cursor rest).flatMap (Step.tokens isWord) =
        (marksFrom offset rest).map (fun mark => mark.1.token (passed ++ rest) mark.2) ∧
      ∀ mark ∈ marksFrom offset rest, mark.1.StandsIn (passed ++ rest) := by
  induction offset, cursor, rest using Reference.stepsFrom_induct result generalizing passed with
  | nil offset cursor =>
    rw [Reference.stepsFrom_nil, marksFrom_of_failure (parse_of_blank rfl)]
    exact ⟨rfl, List.forall_mem_nil _⟩
  | halted offset cursor rest more ends =>
    rw [Reference.stepsFrom_of_halted more ends]
    cases read : parse rest with
    | failure code location =>
      rw [marksFrom_of_failure read]
      exact ⟨rfl, List.forall_mem_nil _⟩
    | statement code consumed phrase =>
      obtain ⟨source, after, -, nonempty, -, -, taken, resumable⟩ := taken_of_parse read
      rcases ends with terminal | nothing
      · rw [StatusCode.isTerminal, resumable] at terminal
        cases terminal
      · exact absurd (taken.symm.trans nothing) nonempty
  | step offset cursor rest more resumable something ih =>
    cases read : parse rest with
    | failure code location =>
      have sound := sound_parse rest
      rw [read] at sound
      rw [result, read, StatusCode.isTerminal] at resumable
      simp only [Parsed.result, sound.1, Bool.not_false, ne_eq, not_true_eq_false] at resumable
    | statement code consumed phrase =>
      obtain ⟨source, after, split, nonempty, length, told, taken, -⟩ := taken_of_parse read
      have found : (result rest).statement = some ⟨0, phrase.data⟩ := by
        rw [result, read]
        rfl
      have left : rest.drop source.length = after := by
        rw [split, List.drop_left]
      have left' : Text.dropBytes consumed rest = after := by
        rw [← length, split, Text.dropBytes_byteLength_append]
      have whole : passed ++ rest = passed ++ source ++ after := by
        rw [split, List.append_assoc]
      rw [whole] at short ⊢
      obtain ⟨tokens, stand⟩ := tokens_of_marksFrom known told short 0
      rw [taken, left] at ih
      obtain ⟨tokens', stand'⟩ := ih short
        (by rw [start, Text.byteLength_append]) (by rw [place, Text.walk_endPosition])
      rw [Reference.stepsFrom_of_step more resumable something, marksFrom_of_statement read, taken,
        left', ← length]
      constructor
      · dsimp only
        rw [left, List.flatMap_cons, List.map_append, tokens', Step.tokens, found, place, start]
        exact congrArg (· ++ _) tokens
      · intro mark marked
        rw [start] at marked stand'
        rcases List.mem_append.1 marked with here | later
        · exact stand mark here
        · exact stand' mark later

end SchemaHighlighter.Grammar

namespace SchemaHighlighter.Engine

/-- The tokens of a text are the words that the grammar marks in it, one for each and in their
order. -/
theorem scanAll_marks_words {isWord : Char → Bool} (known : Text.ContinuesIdentifiers isWord)
    (text : Text) (m : Machine (Linear Grammar.State))
    (spacious : Spacious (fun s => s.faults = {}) (Text.byteLength text) m) :
    (Grammar.engine.scanAll (fun _ => false) text m).tokens isWord =
        (Grammar.marks text).map (fun mark => mark.1.token text mark.2) ∧
      ∀ mark ∈ Grammar.marks text, mark.1.StandsIn text := by
  have short : Text.byteLength ([] ++ text) < 0x100000000 := by
    have fits := spacious.room.1.1
    have small := spacious.fit.sound.small
    have within := spacious.fit.sound.within
    rw [List.nil_append]
    omega
  have tokens : (Grammar.engine.scanAll (fun _ => false) text m).tokens isWord =
      Reference.tokens isWord Grammar.result text (wholeRange text) :=
    tokens_scan isWord Grammar.pure_engine Grammar.prefixStable_result _ spacious (Nat.le_refl _)
  rw [tokens, Reference.tokens, Reference.steps_wholeRange]
  exact Grammar.tokens_stepsFrom known short rfl rfl

/-- Keywords inside names and names that are keywords, on two lines and after a character of two
bytes. -/
theorem scanAll_marks_words_of_package :
    let m := Linear.machine 160 160 ({} : Grammar.State)
    let text := "package main main;enum enumÄ\x7b\nenum = +7;\x7di32 i32i32;".toList
    Spacious (fun s => s.faults = {}) (Text.byteLength text) m ∧
      (Grammar.engine.scanAll (fun _ => false) text m).tokens Text.isWordChar = [
        ⟨0, 8, 4, .keyword⟩, ⟨0, 0, 7, .keyword⟩, ⟨0, 13, 4, .typeName⟩,
        ⟨0, 18, 4, .keyword⟩, ⟨0, 23, 5, .typeName⟩, ⟨1, 0, 4, .enumMember⟩,
        ⟨1, 11, 3, .keyword⟩, ⟨1, 15, 6, .property⟩] := by
  intro m text
  have spacious : Spacious (fun s => s.faults = {}) (Text.byteLength text) m :=
    ⟨⟨Linear.sound_machine _ (by decide), rfl⟩, by decide +kernel⟩
  refine ⟨spacious, (scanAll_marks_words Text.continuesIdentifiers_isWordChar text m
    spacious).1.trans ?_⟩
  decide +kernel

end SchemaHighlighter.Engine
