import SchemaHighlighter.Proofs.Engine.Terminator

/-! # How the words of a statement lie in it

The words of a statement are in the order of the text, with nothing but blanks between them, and
each of them goes on up to a blank or an equals sign. -/
namespace SchemaHighlighter.Grammar

/-- Words end before blanks and the equals sign. -/
def Divides (c : Char) : Prop := Text.isBlank c = true ∨ c = '='

instance (c : Char) : Decidable (Divides c) := inferInstanceAs (Decidable (_ ∨ _))

def Blank (gap : Text) : Prop := ∀ c ∈ gap, Text.isBlank c = true

/-- The text, which begins at byte `offset`, has these words between blanks. What follows a word
divides it from the next, unless it is the equals sign. -/
inductive Spelled : Nat → List Word → Text → Prop
  | nil {offset : Nat} {gap : Text} : Blank gap → Spelled offset [] gap
  | cons {offset : Nat} {gap word rest : Text} {words : List Word} :
    Blank gap → word ≠ [] → (word = ['='] ∨ ∀ c ∈ rest.head?, Divides c) →
      Spelled (offset + Text.byteLength gap + Text.byteLength word) words rest →
      Spelled offset (⟨offset + Text.byteLength gap, word⟩ :: words) (gap ++ word ++ rest)

variable {offset : Nat} {text first : Text} {words : List Word} {c : Char}

theorem blank_nil : Blank [] := List.forall_mem_nil _

theorem Blank.cons (blank : Text.isBlank c = true) {gap : Text} (h : Blank gap) :
    Blank (c :: gap) := List.forall_mem_cons.2 ⟨blank, h⟩

theorem Spelled.blank (blank : Text.isBlank c = true)
    (spelled : Spelled (offset + c.utf8Size) words text) : Spelled offset words (c :: text) := by
  generalize start : offset + c.utf8Size = begin at spelled
  cases spelled with
  | nil gap => exact .nil (gap.cons blank)
  | @cons _ gap word rest words empty nonempty divided spelled =>
    subst start
    have place :
        offset + c.utf8Size + Text.byteLength gap = offset + Text.byteLength (c :: gap) := by
      rw [Text.byteLength_cons, Nat.add_assoc]
    rw [place] at spelled ⊢
    exact .cons (empty.cons blank) nonempty divided spelled

theorem Spelled.blanks {gap : Text} (blank : Blank gap)
    (spelled : Spelled (offset + Text.byteLength gap) words text) :
    Spelled offset words (gap ++ text) := by
  induction gap generalizing offset with
  | nil => exact spelled
  | cons c gap ih =>
    obtain ⟨first, others⟩ := List.forall_mem_cons.1 blank
    rw [Text.byteLength_cons, ← Nat.add_assoc] at spelled
    exact (ih others spelled).blank first

/-- Up to a word there are only blanks and the words before it. -/
theorem Spelled.split {between : List Word} {name : Word}
    (spelled : Spelled offset (between ++ name :: words) text) :
    ∃ gap after, text = gap ++ name.text ++ after ∧ offset + Text.byteLength gap = name.offset ∧
      name.text ≠ [] ∧ ∀ c ∈ gap, Text.isBlank c = true ∨ ∃ v ∈ between, c ∈ v.text := by
  induction between generalizing offset text with
  | nil =>
    cases spelled with
    | @cons _ gap word rest _ blank nonempty _ _ =>
      exact ⟨gap, rest, rfl, rfl, nonempty, fun c member => .inl (blank c member)⟩
  | cons v between ih =>
    cases spelled with
    | @cons _ gap word rest _ blank _ _ spelled =>
      obtain ⟨gap', after, rfl, place, nonempty, filled⟩ := ih spelled
      refine ⟨gap ++ word ++ gap', after, ?_, ?_, nonempty, ?_⟩
      · simp only [List.append_assoc]
      · rw [← place, Text.byteLength_append, Text.byteLength_append]
        omega
      · intro c member
        rcases List.mem_append.1 member with member | later
        · rcases List.mem_append.1 member with first | here
          · exact .inl (blank c first)
          · exact .inr ⟨_, .head _, here⟩
        · rcases filled c later with blank | ⟨v, member, here⟩
          · exact .inl blank
          · exact .inr ⟨v, .tail _ member, here⟩

theorem Spelled.begun (nonempty : first ≠ []) (divides : Divides c)
    (spelled : Spelled (offset + Text.byteLength first) words (c :: text)) :
    Spelled offset (⟨offset, first⟩ :: words) (first ++ c :: text) := by
  have divided : ∀ d ∈ (c :: text).head?, Divides d := by
    rintro _ ⟨⟩
    exact divides
  exact .cons blank_nil nonempty (.inr divided) spelled

/-- What divides words ends the word that has begun, and is read as after a blank. -/
theorem wordsFrom_of_divides (divides : Divides c) (begun : Option Word) :
    wordsFrom offset begun (c :: text) =
      (begun.map fun w => { w with text := w.text.reverse }).toList ++
        ((if c = '=' then [⟨offset, ['=']⟩] else []) ++
          wordsFrom (offset + c.utf8Size) none text) := by
  have next : (Text.isBlank c || c = '=') = true := by
    rwa [Bool.or_eq_true, decide_eq_true_iff]
  cases begun <;> rw [wordsFrom, if_pos next, List.append_assoc]

theorem wordsFrom_of_not_divides (inside : ¬ Divides c) (begun : Option Word) :
    wordsFrom offset begun (c :: text) =
      wordsFrom (offset + c.utf8Size)
        (some (begun.elim ⟨offset, [c]⟩ fun w => { w with text := c :: w.text })) text := by
  have next : ¬ (Text.isBlank c || c = '=') = true := by
    rwa [Bool.or_eq_true, decide_eq_true_iff]
  cases begun <;> rw [wordsFrom, if_neg next] <;> rfl

/-- Both ways to read on: between two words, and inside a word that has begun with `first`. -/
theorem spelled_wordsFrom (text : Text) :
    (∀ offset, Spelled offset (wordsFrom offset none text) text) ∧
      ∀ offset first, first ≠ [] →
        Spelled offset
          (wordsFrom (offset + Text.byteLength first) (some ⟨offset, first.reverse⟩) text)
          (first ++ text) := by
  induction text with
  | nil =>
    constructor
    · intro offset
      exact .nil blank_nil
    · intro offset first nonempty
      have none : ∀ c ∈ ([] : Text).head?, Divides c := by rintro _ ⟨⟩
      simp only [wordsFrom, Option.map_some, Option.toList_some, List.reverse_reverse]
      exact .cons blank_nil nonempty (.inr none) (.nil blank_nil)
  | cons c rest ih =>
    obtain ⟨between, inside⟩ := ih
    by_cases divides : Divides c
    · have spelled : ∀ offset, Spelled offset (wordsFrom offset none (c :: rest)) (c :: rest) := by
        intro offset
        rw [wordsFrom_of_divides divides, Option.map_none, Option.toList_none, List.nil_append]
        by_cases sign : c = '='
        · subst sign
          exact .cons blank_nil (List.cons_ne_nil _ _) (.inl rfl) (between _)
        · rw [if_neg sign, List.nil_append]
          exact (between _).blank (divides.resolve_right sign)
      refine ⟨spelled, ?_⟩
      intro offset first nonempty
      have after := spelled (offset + Text.byteLength first)
      rw [wordsFrom_of_divides divides, Option.map_none, Option.toList_none, List.nil_append]
        at after
      rw [wordsFrom_of_divides divides, Option.map_some, Option.toList_some, List.reverse_reverse]
      exact after.begun nonempty divides
    · constructor
      · intro offset
        rw [wordsFrom_of_not_divides divides]
        exact inside offset [c] (List.cons_ne_nil _ _)
      · intro offset first nonempty
        have longer := inside offset (first ++ [c]) (List.append_ne_nil_of_left_ne_nil nonempty _)
        rw [List.append_assoc, List.singleton_append, List.reverse_append, Text.byteLength_append,
          ← Nat.add_assoc] at longer
        rw [wordsFrom_of_not_divides divides]
        exact longer

theorem spelled_words {blanks : Text} (blank : Blank blanks) (text : Text) :
    Spelled 0 (Grammar.words (Text.byteLength blanks) text) (blanks ++ text) := by
  apply Spelled.blanks blank
  rw [Nat.zero_add]
  exact (spelled_wordsFrom text).1 _

/-- `source` is the text of a statement that says `phrase`. -/
inductive Tells : Phrase → Text → Prop
  | blockEnd (source : Text) : Tells .blockEnd source
  | words {phrase : Phrase} {words : List Word} {inner : Text} (last : Char) :
    Spelled 0 words inner → Phrase.ofWords? words = some phrase → Tells phrase (inner ++ [last])

/-- A statement takes a part of the text, and its phrase is what the words of that part say. -/
theorem tells_of_parse {code : StatusCode} {consumed : Nat} {phrase : Phrase}
    (read : parse text = .statement code consumed phrase) :
    ∃ source after, text = source ++ after ∧ source ≠ [] ∧ Text.byteLength source = consumed ∧
      Tells phrase source := by
  have split := List.takeWhile_append_dropWhile (p := Text.isBlank) (l := text)
  have blank : Blank (text.takeWhile Text.isBlank) := fun c => List.mem_takeWhile_imp
  cases body : text.dropWhile Text.isBlank with
  | nil =>
    rw [parse_of_blank body] at read
    cases read
  | cons c rest =>
    rw [body] at split
    by_cases inside : c = '}'
    · subst inside
      rw [parse_of_blockEnd body] at read
      cases read
      refine ⟨text.takeWhile Text.isBlank ++ ['}'], rest, ?_, ?_, ?_, .blockEnd _⟩
      · rw [List.append_assoc, List.singleton_append, split]
      · exact List.append_ne_nil_of_right_ne_nil _ (List.cons_ne_nil _ _)
      · exact Text.byteLength_append ..
    have split' := List.takeWhile_append_dropWhile (p := (!endsStatement ·)) (l := c :: rest)
    cases left : (c :: rest).dropWhile (!endsStatement ·) with
    | nil =>
      rw [parse_of_open body inside left] at read
      cases read
    | cons last after =>
      rw [left] at split'
      rw [parse_of_ended body inside left, ended] at read
      split at read
      case h_1 phrase' told =>
        cases read
        refine ⟨text.takeWhile Text.isBlank ++ (c :: rest).takeWhile (!endsStatement ·) ++ [last],
          after, ?_, ?_, ?_, .words last (spelled_words blank _) told⟩
        · rw [List.append_assoc, List.singleton_append, List.append_assoc, split', split]
        · exact List.append_ne_nil_of_right_ne_nil _ (List.cons_ne_nil _ _)
        · have one := utf8Size_of_endsStatement (endsStatement_of_dropWhile left)
          rw [Text.byteLength_append, Text.byteLength_append, Text.byteLength_cons, one]
          rfl
      case h_2 => cases read

end SchemaHighlighter.Grammar
