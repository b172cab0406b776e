import SchemaHighlighter.Text.Basic

/-! # Slices of a text

A slice is taken where a text splits into three parts, and nowhere else. -/
namespace SchemaHighlighter.Text

variable {text source part : Text} {start stop i j : Nat}

instance (text : Text) (b : Nat) : Decidable (IsBoundary text b) :=
  decidable_of_iff _ (isBoundary_iff text b).symm

theorem slice?_eq_some_iff :
    slice? text start stop = some part ↔ ∃ before after, text = before ++ part ++ after ∧
      byteLength before = start ∧ start + byteLength part = stop := by
  constructor
  · intro h
    simp only [slice?] at h
    split at h
    case isTrue inside =>
      obtain ⟨whole, _, first⟩ := inside
      have outer := takeBytes_append_dropBytes stop text
      have inner := takeBytes_append_dropBytes start (takeBytes stop text)
      rw [Option.some.inj h] at inner
      refine ⟨_, _, by rw [inner, outer], first, ?_⟩
      have length := congrArg byteLength inner
      rw [byteLength_append] at length
      unfold floorBoundary at first
      omega
    case isFalse => cases h
  · rintro ⟨before, after, rfl, rfl, rfl⟩
    have upTo : takeBytes (byteLength before + byteLength part) (before ++ part ++ after) =
        before ++ part := by
      rw [← byteLength_append]
      exact takeBytes_byteLength_append (before ++ part) after
    unfold slice?
    simp only [upTo, floorBoundary, takeBytes_byteLength_append, dropBytes_byteLength_append,
      byteLength_append, Nat.le_add_right, and_self, if_true]

theorem slice?_slice? (outer : slice? text start stop = some source)
    (inner : slice? source i j = some part) : slice? text (start + i) (start + j) = some part := by
  obtain ⟨before, after, rfl, rfl, -⟩ := slice?_eq_some_iff.1 outer
  obtain ⟨before', after', rfl, rfl, rfl⟩ := slice?_eq_some_iff.1 inner
  exact slice?_eq_some_iff.2
    ⟨before ++ before', after' ++ after, by simp only [List.append_assoc],
      byteLength_append before before', Nat.add_assoc ..⟩

theorem slice?_of_isPrefix (outer : slice? text start stop = some source)
    (begins : part <+: source) : slice? text start (start + byteLength part) = some part := by
  obtain ⟨before, after, rfl, rfl, -⟩ := slice?_eq_some_iff.1 outer
  obtain ⟨left, rfl⟩ := begins
  exact slice?_eq_some_iff.2
    ⟨before, left ++ after, by simp only [List.append_assoc], rfl, rfl⟩

theorem slice?_drop (outer : slice? text start stop = some source) (begins : part <+: source) :
    slice? text (start + byteLength part) stop = some (source.drop part.length) := by
  obtain ⟨before, after, rfl, rfl, rfl⟩ := slice?_eq_some_iff.1 outer
  obtain ⟨left, rfl⟩ := begins
  refine slice?_eq_some_iff.2 ⟨before ++ part, after, ?_, byteLength_append .., ?_⟩
  · rw [List.drop_left]
    simp only [List.append_assoc]
  · rw [List.drop_left, byteLength_append, Nat.add_assoc]

theorem byteLength_le_of_isPrefix (begins : part <+: text) : byteLength part ≤ byteLength text := by
  obtain ⟨left, rfl⟩ := begins
  rw [byteLength_append]
  exact Nat.le_add_right _ _

theorem isPrefix_of_byteLength_le {first last : Text} (h : first <+: text) (h' : last <+: text)
    (order : byteLength first ≤ byteLength last) : first <+: last := by
  rcases List.prefix_or_prefix_of_prefix h h' with shorter | ⟨more, rfl⟩
  · exact shorter
  · rw [byteLength_append] at order
    have none : more = [] := by
      by_cases none : more = []
      · exact none
      · have := byteLength_pos none
        omega
    exact ⟨[], by simp only [none, List.append_nil]⟩

theorem isPrefix_of_slice? {stop' : Nat} {part' : Text} (h : slice? text start stop = some part)
    (h' : slice? text start stop' = some part') (order : stop ≤ stop') : part <+: part' := by
  obtain ⟨before, after, rfl, rfl, rfl⟩ := slice?_eq_some_iff.1 h
  obtain ⟨before', after', split, length, rfl⟩ := slice?_eq_some_iff.1 h'
  simp only [List.append_assoc] at split
  have same : before = before' := by
    have first := takeBytes_byteLength_append before (part ++ after)
    rw [split, ← length, takeBytes_byteLength_append] at first
    exact first.symm
  subst same
  exact isPrefix_of_byteLength_le ⟨after, rfl⟩ ⟨after', (List.append_cancel_left split).symm⟩
    (by omega)

theorem exists_slice? (first : IsBoundary text start) (last : IsBoundary text stop)
    (order : start ≤ stop) : ∃ part, slice? text start stop = some part := by
  obtain ⟨upToStart, fromStart, split, rfl⟩ := first
  obtain ⟨upToStop, fromStop, split', rfl⟩ := last
  obtain ⟨part, rfl⟩ := isPrefix_of_byteLength_le ⟨_, split.symm⟩ ⟨_, split'.symm⟩ order
  exact ⟨part, slice?_eq_some_iff.2 ⟨_, _, split', rfl, (byteLength_append ..).symm⟩⟩

theorem isBoundary_of_slice? (h : slice? text start stop = some part) :
    IsBoundary text start ∧ IsBoundary text stop := by
  obtain ⟨before, after, rfl, rfl, rfl⟩ := slice?_eq_some_iff.1 h
  exact ⟨⟨before, part ++ after, List.append_assoc .., rfl⟩,
    ⟨before ++ part, after, rfl, byteLength_append ..⟩⟩

theorem eq_of_slice? (h : slice? text start stop = some part) :
    part = dropBytes start (takeBytes stop text) := by
  obtain ⟨before, after, rfl, rfl, rfl⟩ := slice?_eq_some_iff.1 h
  rw [← byteLength_append, takeBytes_byteLength_append, dropBytes_byteLength_append]

theorem dropBytes_of_slice? (h : slice? text start stop = some part) :
    (dropBytes start text).take part.length = part := by
  obtain ⟨before, after, rfl, rfl, -⟩ := slice?_eq_some_iff.1 h
  rw [List.append_assoc, dropBytes_byteLength_append, List.take_left]

theorem le_of_slice? (h : slice? text start stop = some part) :
    start + byteLength part = stop ∧ stop ≤ byteLength text := by
  obtain ⟨before, after, rfl, rfl, rfl⟩ := slice?_eq_some_iff.1 h
  simp only [byteLength_append, true_and]
  omega

/-- A cut loses no more than three bytes, those of a character that it would divide. -/
theorem le_byteLength_takeBytes (text : Text) {n : Nat} (inside : n ≤ byteLength text) :
    n ≤ byteLength (takeBytes n text) + 3 := by
  induction text generalizing n with
  | nil =>
    rw [byteLength_nil] at inside
    omega
  | cons c rest ih =>
    have small := c.utf8Size_le_four
    rw [byteLength_cons] at inside
    rw [takeBytes]
    split
    case isTrue fits =>
      have further := ih (n := n - c.utf8Size) (by omega)
      rw [byteLength_cons]
      omega
    case isFalse => omega

theorem drop_ne_nil_iff (begins : part <+: text) :
    text.drop part.length ≠ [] ↔ byteLength part < byteLength text := by
  obtain ⟨left, rfl⟩ := begins
  rw [List.drop_left, byteLength_append]
  constructor
  · intro more
    have positive := byteLength_pos more
    omega
  · rintro shorter rfl
    rw [byteLength_nil] at shorter
    omega

/-- A cut keeps the longest beginning of a text that is not longer than asked. -/
theorem isPrefix_takeBytes_iff {n : Nat} :
    part <+: takeBytes n text ↔ part <+: text ∧ byteLength part ≤ n := by
  constructor
  · intro begins
    exact ⟨begins.trans (takeBytes_isPrefix n text),
      Nat.le_trans (byteLength_le_of_isPrefix begins) (byteLength_takeBytes_le n text)⟩
  · rintro ⟨⟨left, rfl⟩, fits⟩
    induction part generalizing n with
    | nil => exact List.nil_prefix
    | cons c part ih =>
      rw [byteLength_cons] at fits
      rw [List.cons_append, takeBytes, if_pos (by omega)]
      exact List.cons_prefix_cons.2 ⟨rfl, ih (by omega)⟩

/-- What a cut of the text keeps it keeps of every beginning that goes as far. -/
theorem takeBytes_of_isPrefix {n : Nat} (begins : part <+: text)
    (far : takeBytes n text <+: part) : takeBytes n part = takeBytes n text := by
  have one : takeBytes n part <+: takeBytes n text :=
    isPrefix_takeBytes_iff.2
      ⟨(takeBytes_isPrefix n part).trans begins, byteLength_takeBytes_le n part⟩
  have two : takeBytes n text <+: takeBytes n part :=
    isPrefix_takeBytes_iff.2 ⟨far, byteLength_takeBytes_le n text⟩
  exact one.eq_of_length (Nat.le_antisymm one.length_le two.length_le)

end SchemaHighlighter.Text
