import Mathlib.Data.List.TakeWhile
import SchemaHighlighter.Proofs.Engine.Grammar
import SchemaHighlighter.Proofs.Text.Slice

/-! # Where a statement of the grammar ends

The grammar asks for more until it has seen what ends the first statement of a text, and has its
answer from there on. -/
namespace SchemaHighlighter.Grammar

variable {text before after rest : Text} {c last : Char}

/-- With `last`, which follows `before`, the first statement of a text ends: a closing brace is a
statement of its own, and any other goes up to the first semicolon or opening brace. -/
def Terminates (before : Text) (last : Char) : Prop :=
  last = '}' ∧ (∀ c ∈ before, Text.isBlank c = true) ∨
    endsStatement last = true ∧ (∀ c ∈ before, endsStatement c = false) ∧
      (before.dropWhile Text.isBlank).head? ≠ some '}'

theorem endsStatement_of_isBlank (blank : Text.isBlank c = true) : endsStatement c = false := by
  simp only [endsStatement, Bool.or_eq_false_iff, decide_eq_false_iff_not]
  constructor
  · rintro rfl
    exact absurd blank (by decide)
  · rintro rfl
    exact absurd blank (by decide)

theorem endsStatement_of_dropWhile (left : text.dropWhile (!endsStatement ·) = last :: rest) :
    endsStatement last = true := by
  have stopped := List.head?_dropWhile_not (!endsStatement ·) text
  simpa [left] using stopped

theorem Terminates.isBlank_eq_false (h : Terminates before last) : Text.isBlank last = false := by
  rcases h with ⟨rfl, -⟩ | ⟨ends, -⟩
  · decide
  · rw [← Bool.not_eq_true]
    intro blank
    rw [endsStatement_of_isBlank blank] at ends
    cases ends

theorem Terminates.utf8Size (h : Terminates before last) : last.utf8Size = 1 := by
  rcases h with ⟨rfl, -⟩ | ⟨ends, -⟩
  · rfl
  · exact utf8Size_of_endsStatement ends

theorem needsMoreInput_ended (start : Nat) (inner : Text) (last : Char) :
    ((ended start inner last).result text).status.code.needsMoreInput = false := by
  unfold ended
  split
  · by_cases block : last = '{' <;> simp only [Parsed.result, block, if_true, if_false] <;> rfl
  · rfl

/-- A text in which a statement ends is not answered with a request for more. -/
theorem answered_of_terminates (h : Terminates before last) :
    (result (before ++ last :: after)).status.code.needsMoreInput = false := by
  generalize whole : before ++ last :: after = text
  have member : last ∈ text := by
    rw [← whole]
    exact List.mem_append_right _ (.head _)
  rw [result]
  cases body : text.dropWhile Text.isBlank with
  | nil =>
    have blank := List.dropWhile_eq_nil_iff.1 body last member
    rw [h.isBlank_eq_false] at blank
    cases blank
  | cons c rest =>
    by_cases inside : c = '}'
    · subst inside
      rw [parse_of_blockEnd body]
      rfl
    cases left : (c :: rest).dropWhile (!endsStatement ·) with
    | cons end' after =>
      rw [parse_of_ended body inside left]
      exact needsMoreInput_ended ..
    | nil =>
      -- then `last` would be blank, or else not end anything
      exfalso
      rcases h with ⟨rfl, blanks⟩ | ⟨ends, -⟩
      · apply inside
        rw [← whole, List.dropWhile_append_of_pos blanks] at body
        rw [List.dropWhile_cons_of_neg (by decide)] at body
        exact (List.cons.inj body).1.symm
      · rw [← List.takeWhile_append_dropWhile (p := Text.isBlank) (l := text), body] at member
        rcases List.mem_append.1 member with blank | later
        · rw [endsStatement_of_isBlank (List.mem_takeWhile_imp blank)] at ends
          cases ends
        · have open' := List.dropWhile_eq_nil_iff.1 left last later
          rw [ends] at open'
          cases open'

/-- What a statement takes of a text goes up to what ends it, that included. -/
theorem terminates_of_isResumable (resumable : (result text).status.code.isResumable = true) :
    ∃ before last after, text = before ++ last :: after ∧ Terminates before last ∧
      (result text).consumed = Text.byteLength before + 1 := by
  have split := List.takeWhile_append_dropWhile (p := Text.isBlank) (l := text)
  have blank : ∀ c ∈ text.takeWhile Text.isBlank, Text.isBlank c = true :=
    fun c => List.mem_takeWhile_imp
  rw [result] at resumable ⊢
  cases body : text.dropWhile Text.isBlank with
  | nil =>
    rw [parse_of_blank body] at resumable
    cases resumable
  | cons c rest =>
    rw [body] at split
    by_cases inside : c = '}'
    · subst inside
      rw [parse_of_blockEnd body]
      exact ⟨_, _, rest, split.symm, .inl ⟨rfl, blank⟩, rfl⟩
    have split' := List.takeWhile_append_dropWhile (p := (!endsStatement ·)) (l := c :: rest)
    cases left : (c :: rest).dropWhile (!endsStatement ·) with
    | nil =>
      rw [parse_of_open body inside left] at resumable
      cases resumable
    | cons last after =>
      rw [left] at split'
      rw [parse_of_ended body inside left] at resumable ⊢
      refine ⟨text.takeWhile Text.isBlank ++ (c :: rest).takeWhile (!endsStatement ·), last, after,
        ?_, .inr ⟨endsStatement_of_dropWhile left, ?_, ?_⟩, ?_⟩
      · rw [List.append_assoc, split', split]
      · intro d member
        rcases List.mem_append.1 member with first | second
        · exact endsStatement_of_isBlank (blank d first)
        · simpa using List.mem_takeWhile_imp second
      · have visible : ¬ Text.isBlank c = true := by
          have stopped := List.head?_dropWhile_not Text.isBlank text
          simpa [body] using stopped
        rw [List.dropWhile_append_of_pos blank, List.takeWhile_cons]
        split
        · rw [List.dropWhile_cons_of_neg visible]
          exact fun first => inside (Option.some.inj first)
        · rintro ⟨⟩
      · unfold ended at resumable ⊢
        split at resumable
        · rw [Text.byteLength_append]
          rfl
        · cases resumable

/-- A statement is answered from the end of it on. -/
theorem answeredFrom_of_isResumable (resumable : (result text).status.code.isResumable = true) :
    ∃ before last after, text = before ++ last :: after ∧ Terminates before last ∧
      (result text).consumed = Text.byteLength before + 1 ∧
      AnsweredFrom result (Text.byteLength before + 1) text := by
  obtain ⟨before, last, after, rfl, terminates, consumed⟩ := terminates_of_isResumable resumable
  refine ⟨before, last, after, rfl, terminates, consumed, ?_⟩
  intro beginning begins enough
  have whole : before ++ [last] <+: before ++ last :: after := ⟨after, by simp⟩
  have length : Text.byteLength (before ++ [last]) = Text.byteLength before + 1 := by
    rw [Text.byteLength_append, Text.byteLength_cons, terminates.utf8Size]
    rfl
  obtain ⟨more, rfl⟩ := Text.isPrefix_of_byteLength_le whole begins (by omega)
  rw [List.append_assoc]
  exact answered_of_terminates terminates

end SchemaHighlighter.Grammar
