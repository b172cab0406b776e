import SchemaHighlighter.Text.Position
import SchemaHighlighter.Proofs.Text.Slice

/-! # The byte that a position names

Everything about the offset of a position follows from one equation, which takes the first
character from the text. A position that names the byte before a character and then walks over
it names the byte behind it, also when it lay past the end of its line. -/
namespace SchemaHighlighter

namespace Position

/-- The position as it is counted from behind the first character `b` of a text. -/
def behind (p : Position) (b : Char) : Position :=
  if b = '\n' then ⟨p.line - 1, p.column⟩
  else if p.line = 0 then ⟨0, p.column - 1⟩ else p

/-- In a text that begins with `b` the position is cut back to the very start. -/
def IsFirst (p : Position) (b : Char) : Prop := p.line = 0 ∧ (p.column = 0 ∨ b = '\n')

variable {p q : Position} {b c : Char}

theorem isFirst_of_le (h : p ≤ q) (first : q.IsFirst b) : p.IsFirst b := by
  obtain ⟨line, column⟩ := first
  rw [le_def] at h
  exact ⟨by omega, column.imp_left fun zero => by omega⟩

theorem behind_le (h : p ≤ q) (inside : ¬ p.IsFirst b) : p.behind b ≤ q.behind b := by
  rw [le_def] at h ⊢
  rw [IsFirst] at inside
  by_cases newline : b = '\n'
  · simp only [newline, or_true, and_true] at inside
    simp only [behind, if_pos newline]
    omega
  · simp only [newline, or_false] at inside
    simp only [behind, if_neg newline]
    by_cases first : p.line = 0
    · by_cases first' : q.line = 0
      · have columns : p.column ≤ q.column := by omega
        simp only [if_pos first, if_pos first']
        exact .inr ⟨trivial, Nat.sub_le_sub_right columns 1⟩
      · simp only [if_pos first, if_neg first']
        omega
    · have first' : q.line ≠ 0 := by omega
      simp only [if_neg first, if_neg first']
      exact h

theorem not_isFirst_advance (inside : ¬ p.IsFirst b) : ¬ (p.advance c).IsFirst b := by
  intro first
  apply inside
  by_cases newline : c = '\n'
  · simp [advance, IsFirst, newline] at first
  · simp only [advance, if_neg newline, IsFirst, Nat.add_one_ne_zero, false_or] at first
    exact ⟨first.1, .inr first.2⟩

theorem advance_behind (inside : ¬ p.IsFirst b) :
    (p.advance c).behind b = (p.behind b).advance c := by
  rw [IsFirst] at inside
  by_cases newline : b = '\n'
  · simp only [newline, or_true, and_true] at inside
    have line : p.line - 1 + 1 = p.line := by omega
    by_cases next : c = '\n' <;> simp [advance, behind, newline, next, line]
  · simp only [newline, or_false] at inside
    by_cases first : p.line = 0
    · have column : p.column - 1 + 1 = p.column := by omega
      by_cases next : c = '\n' <;> simp [advance, behind, newline, first, next, column]
    · by_cases next : c = '\n' <;> simp [advance, behind, newline, first, next]

theorem le_behind (p : Position) (b : Char) :
    p.line ≤ (p.behind b).line + 1 ∧ p.column ≤ (p.behind b).column + 1 := by
  by_cases newline : b = '\n'
  · simp only [behind, if_pos newline]
    omega
  · by_cases first : p.line = 0
    · simp only [behind, if_neg newline, if_pos first]
      omega
    · simp only [behind, if_neg newline, if_neg first]
      omega

/-- Past the first character of a text the position is at the start of what is left. -/
theorem advance_behind_self (first : p.IsFirst b) :
    ¬ (p.advance b).IsFirst b ∧ (p.advance b).behind b = {} := by
  obtain ⟨line, column⟩ := first
  by_cases newline : b = '\n'
  · simp [advance, IsFirst, behind, newline, line]
  · have zero : p.column = 0 := column.resolve_right newline
    simp [advance, IsFirst, behind, newline, line, zero]

end Position

namespace Text

variable {text before after rest : Text} {p q : Position} {b c : Char}

theorem length_le_byteLength (text : Text) : text.length ≤ byteLength text := by
  induction text with
  | nil => exact Nat.le_refl 0
  | cons c rest ih =>
    have := c.utf8Size_pos
    rw [List.length_cons, byteLength_cons]
    omega

theorem offset_nil : offset [] p = 0 := by
  unfold offset
  cases p.line <;> rfl

theorem offset_cons_of_isFirst (first : p.IsFirst b) : offset (b :: rest) p = 0 := by
  obtain ⟨line, column⟩ := first
  unfold offset
  rw [line, lineColumnOffset]
  cases zero : p.column with
  | zero => rfl
  | succ k =>
    have newline : b = '\n' := column.resolve_left (by omega)
    simp only [columnOffset, if_pos newline]

theorem offset_cons (inside : ¬ p.IsFirst b) :
    offset (b :: rest) p = b.utf8Size + offset rest (p.behind b) := by
  obtain ⟨line, column⟩ := p
  unfold Position.IsFirst at inside
  unfold offset Position.behind
  cases line with
  | zero =>
    simp only [true_and, not_or] at inside
    obtain ⟨k, rfl⟩ := Nat.exists_eq_succ_of_ne_zero inside.1
    simp only [if_neg inside.2, if_true, lineColumnOffset, columnOffset, Nat.succ_sub_one]
  | succ line =>
    simp only [lineColumnOffset, Nat.add_one_ne_zero, if_false, Nat.add_sub_cancel]
    split <;> rfl

theorem offset_start : offset text {} = 0 := by
  cases text with
  | nil => exact offset_nil
  | cons b rest => exact offset_cons_of_isFirst ⟨rfl, .inl rfl⟩

/-- Every position is cut back to a place between two characters. -/
theorem isBoundary_offset (text : Text) (p : Position) : IsBoundary text (offset text p) := by
  induction text generalizing p with
  | nil => exact ⟨[], [], rfl, offset_nil.symm⟩
  | cons b rest ih =>
    by_cases first : p.IsFirst b
    · exact ⟨[], b :: rest, rfl, (offset_cons_of_isFirst first).symm⟩
    · obtain ⟨before, after, rfl, length⟩ := ih (p.behind b)
      exact ⟨b :: before, after, rfl, by rw [offset_cons first, byteLength_cons, length]⟩

theorem offset_mono (text : Text) (h : p ≤ q) : offset text p ≤ offset text q := by
  induction text generalizing p q with
  | nil => simp only [offset_nil, Nat.le_refl]
  | cons b rest ih =>
    by_cases first : p.IsFirst b
    · rw [offset_cons_of_isFirst first]
      exact Nat.zero_le _
    · have inside : ¬ q.IsFirst b := fun first' => first (Position.isFirst_of_le h first')
      rw [offset_cons first, offset_cons inside]
      exact Nat.add_le_add_left (ih (Position.behind_le h first)) _

theorem not_isFirst_of_offset (h : offset (b :: before ++ after) p = byteLength (b :: before)) :
    ¬ p.IsFirst b := by
  intro first
  have positive := b.utf8Size_pos
  rw [List.cons_append, offset_cons_of_isFirst first, byteLength_cons] at h
  omega

theorem isFirst_of_offset (h : offset (b :: rest) p = 0) : p.IsFirst b := by
  by_cases first : p.IsFirst b
  · exact first
  · have positive := b.utf8Size_pos
    rw [offset_cons first] at h
    omega

/-- A position that names the byte before a character names the byte behind it after it. -/
theorem offset_advance (h : offset (before ++ c :: after) p = byteLength before) :
    offset (before ++ c :: after) (p.advance c) = byteLength before + c.utf8Size := by
  induction before generalizing p with
  | nil =>
    obtain ⟨inside, start⟩ := Position.advance_behind_self (isFirst_of_offset h)
    rw [List.nil_append, offset_cons inside, start, offset_start, byteLength_nil, Nat.zero_add,
      Nat.add_zero]
  | cons b before ih =>
    have inside := not_isFirst_of_offset h
    rw [List.cons_append, offset_cons inside, byteLength_cons] at h
    rw [List.cons_append, offset_cons (Position.not_isFirst_advance inside),
      Position.advance_behind inside, ih (by omega), byteLength_cons, Nat.add_assoc]

/-- After a character the position counts no more than was passed, however far it lay out. -/
theorem advance_le_length (h : offset (before ++ c :: after) p = byteLength before) :
    (p.advance c).line ≤ before.length + 1 ∧ (p.advance c).column ≤ before.length + 1 := by
  induction before generalizing p with
  | nil =>
    obtain ⟨line, column⟩ := isFirst_of_offset h
    unfold Position.advance
    split
    case isTrue => exact ⟨by rw [line]; exact Nat.le_refl _, Nat.zero_le _⟩
    case isFalse newline =>
      rw [column.resolve_right newline, line]
      exact ⟨Nat.zero_le _, Nat.le_refl _⟩
  | cons b before ih =>
    have inside := not_isFirst_of_offset h
    rw [List.cons_append, offset_cons inside, byteLength_cons] at h
    obtain ⟨line, column⟩ := ih (p := p.behind b) (by omega)
    obtain ⟨line', column'⟩ := Position.le_behind (p.advance c) b
    rw [Position.advance_behind inside] at line' column'
    rw [List.length_cons]
    omega

variable {taken : Text}

/-- Over any stretch of text the position and the byte move together. -/
theorem offset_walk (h : offset (before ++ taken ++ after) p = byteLength before) :
    offset (before ++ taken ++ after) (p.walk taken) = byteLength before + byteLength taken := by
  induction taken generalizing before p with
  | nil => exact h
  | cons c taken ih =>
    have shifted : before ++ c :: taken ++ after = (before ++ [c]) ++ taken ++ after := by simp
    have one : byteLength (before ++ [c]) = byteLength before + c.utf8Size := by simp
    rw [List.append_assoc, List.cons_append] at h
    have next := offset_advance h
    rw [← List.cons_append, ← List.append_assoc, shifted] at next
    rw [shifted, byteLength_cons, ← Nat.add_assoc, ← one]
    exact ih (next.trans one.symm)

theorem walk_le_length (h : offset (before ++ taken ++ after) p = byteLength before)
    (moves : taken ≠ []) :
    (p.walk taken).line ≤ (before ++ taken).length ∧
      (p.walk taken).column ≤ (before ++ taken).length := by
  obtain ⟨passed, c, rfl⟩ : ∃ passed c, taken = passed ++ [c] :=
    ⟨_, _, (List.dropLast_concat_getLast moves).symm⟩
  have shifted : before ++ (passed ++ [c]) ++ after = before ++ passed ++ c :: after := by simp
  have named : offset (before ++ passed ++ c :: after) (p.walk passed) =
      byteLength (before ++ passed) := by
    rw [byteLength_append]
    exact offset_walk (by rw [← shifted]; exact h)
  have one : (before ++ passed ++ [c]).length = (before ++ passed).length + 1 := List.length_append
  rw [Position.walk_append, ← List.append_assoc, one]
  exact advance_le_length named

theorem length_le_column (line : p.line = 0)
    (h : offset (taken ++ after) p = byteLength taken) : taken.length ≤ p.column := by
  induction taken generalizing p with
  | nil => exact Nat.zero_le _
  | cons c taken ih =>
    have inside := not_isFirst_of_offset h
    rw [List.cons_append, offset_cons inside, byteLength_cons] at h
    simp only [Position.IsFirst, line, true_and, not_or] at inside
    have next : p.behind c = ⟨0, p.column - 1⟩ := by
      simp only [Position.behind, if_neg inside.2, line, if_true]
    rw [next] at h
    have shorter := ih (p := ⟨0, p.column - 1⟩) rfl (by omega)
    have moved : p.column ≠ 0 := inside.1
    rw [List.length_cons]
    dsimp only at shorter
    omega

/-- Of two places on one line the columns are apart by at least the characters between them. -/
theorem column_add_length_le (moves : taken ≠ [])
    (h : offset (before ++ taken ++ after) p = byteLength before)
    (h' : offset (before ++ taken ++ after) q = byteLength (before ++ taken))
    (line : p.line = q.line) : p.column + taken.length ≤ q.column := by
  induction before generalizing p q with
  | nil =>
    obtain ⟨c, passed, rfl⟩ := List.exists_cons_of_ne_nil moves
    have first := isFirst_of_offset h
    have inside : ¬ q.IsFirst c := by
      apply not_isFirst_of_offset
      exact h'
    have start : p.column = 0 := by
      obtain ⟨line', column | newline⟩ := first
      · exact column
      · exact absurd ⟨line ▸ line', .inr newline⟩ inside
    rw [start, Nat.zero_add]
    exact length_le_column (line ▸ first.1) h'
  | cons b before ih =>
    have inside : ¬ p.IsFirst b := by
      rw [List.append_assoc] at h
      exact not_isFirst_of_offset h
    have inside' : ¬ q.IsFirst b := not_isFirst_of_offset h'
    simp only [List.cons_append, offset_cons inside, offset_cons inside', byteLength_cons] at h h'
    have between := ih (p := p.behind b) (q := q.behind b) (by omega) (by omega)
    simp only [Position.IsFirst, not_and, not_or] at inside inside'
    by_cases newline : b = '\n'
    · simp only [Position.behind, if_pos newline] at between
      exact between (by rw [line])
    · by_cases zero : p.line = 0
      · have moved := (inside zero).1
        have zero' : q.line = 0 := line ▸ zero
        simp only [Position.behind, if_neg newline, if_pos zero, if_pos zero', true_implies]
          at between
        omega
      · have later : ¬ q.line = 0 := line ▸ zero
        simp only [Position.behind, if_neg newline, if_neg zero, if_neg later] at between
        exact between line

theorem walk_endPosition (before text : Text) :
    Position.walk (endPosition before) text = endPosition (before ++ text) := by
  induction text generalizing before with
  | nil =>
    rw [List.append_nil]
    rfl
  | cons c rest ih =>
    have next : (endPosition before).advance c = endPosition (before ++ [c]) := by
      by_cases newline : c = '\n'
      · simp [Position.advance, endPosition, lastLine, newline, List.count_append]
      · simp [Position.advance, endPosition, lastLine, newline, List.count_append]
    have moved := ih (before ++ [c])
    rw [List.append_assoc, ← next] at moved
    exact moved

/-- A walk from the start over all of a text leads to its end. -/
theorem walk_start (text : Text) : Position.walk {} text = endPosition text :=
  walk_endPosition [] text

theorem offset_endPosition (text : Text) : offset text (endPosition text) = byteLength text := by
  have start : offset ([] ++ text ++ []) {} = byteLength [] := offset_start
  have whole := offset_walk start
  rw [walk_start, List.append_nil, List.nil_append, byteLength_nil, Nat.zero_add] at whole
  exact whole

theorem exists_slice?_of_le (text : Text) (order : p ≤ q) :
    ∃ part, slice? text (offset text p) (offset text q) = some part :=
  exists_slice? (isBoundary_offset text p) (isBoundary_offset text q) (offset_mono text order)

theorem offset_walk_of_slice? {stop : Nat} (part : slice? text (offset text p) stop = some taken) :
    offset text (p.walk taken) = stop := by
  obtain ⟨before, after, split, length, last⟩ := slice?_eq_some_iff.1 part
  have named : offset (before ++ taken ++ after) p = byteLength before := by
    rw [← split, length]
  rw [← last, ← length, split]
  exact offset_walk named

end Text

end SchemaHighlighter
