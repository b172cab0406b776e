import SchemaHighlighter.Engine.Grammar
import SchemaHighlighter.Proofs.Highlight.Cases
import SchemaHighlighter.Proofs.Text.LineIndex

/-! # Positions and bytes name the same places

A walk from the start of a text to a character boundary ends at a position that names this
boundary. Every other position means the last of those that it does not come before, so the
offset and the walk are each the best inverse of the other. -/
namespace SchemaHighlighter

namespace Position

variable {p q : Position} {b : Char}

theorem le_of_behind_le (inside : ¬ q.IsFirst b) (h : p.behind b ≤ q.behind b) : p ≤ q := by
  rw [le_def] at h ⊢
  rw [IsFirst] at inside
  by_cases newline : b = '\n'
  · simp only [newline, or_true, and_true] at inside
    simp only [behind, if_pos newline] at h
    omega
  · simp only [newline, or_false] at inside
    by_cases first : p.line = 0
    · by_cases first' : q.line = 0
      · simp only [behind, if_neg newline, if_pos first, if_pos first'] at h
        omega
      · omega
    · by_cases first' : q.line = 0
      · simp only [behind, if_neg newline, if_neg first, if_pos first'] at h
        omega
      · simp only [behind, if_neg newline, if_neg first, if_neg first'] at h
        exact h

/-- A walk is counted from behind the first character as any position on it is. -/
theorem walk_behind (inside : ¬ p.IsFirst b) (text : Text) :
    (p.walk text).behind b = (p.behind b).walk text := by
  induction text generalizing p with
  | nil => rfl
  | cons c rest ih =>
    have moved := ih (not_isFirst_advance (c := c) inside)
    rw [advance_behind inside] at moved
    exact moved

theorem start_le (p : Position) : ({} : Position) ≤ p := by
  rw [le_def]
  dsimp only
  omega

end Position

namespace Text

variable {text : Text} {b : Nat}

/-- The byte that a position names is not walked to past the position. -/
theorem walked_offset_le (text : Text) (p : Position) :
    Position.walked {} text (offset text p) ≤ p := by
  induction text generalizing p with
  | nil => exact Position.start_le p
  | cons c rest ih =>
    rw [Position.walked]
    by_cases first : p.IsFirst c
    · rw [offset_cons_of_isFirst first, takeBytes, if_neg (Nat.not_le_of_gt c.utf8Size_pos)]
      exact Position.start_le p
    · obtain ⟨inside, start⟩ := Position.advance_behind_self (p := {}) (b := c) ⟨rfl, .inl rfl⟩
      have before := ih (p.behind c)
      rw [Position.walked] at before
      rw [offset_cons first, takeBytes, if_pos (Nat.le_add_right ..), Nat.add_sub_cancel_left]
      have moved := Position.walk_behind inside (takeBytes (offset rest (p.behind c)) rest)
      rw [start] at moved
      exact Position.le_of_behind_le first (moved ▸ before)

theorem offset_walked (place : IsBoundary text b) :
    offset text (Position.walked {} text b) = b := by
  obtain ⟨before, after, rfl, rfl⟩ := place
  have start : offset ([] ++ before ++ after) {} = byteLength [] := offset_start
  have moved := offset_walk start
  rw [List.nil_append, byteLength_nil, Nat.zero_add] at moved
  rw [Position.walked, takeBytes_byteLength_append, moved]

theorem walked_whole (text : Text) :
    Position.walked {} text (byteLength text) = endPosition text := by
  rw [Position.walked, takeBytes_of_byteLength_le (Nat.le_refl _), walk_start]

end Text

namespace Engine

variable {σ : Type} {text : Text}

/-- A scan of everything begins at byte 0 and is handed the whole text. -/
theorem scanAll_eq (e : Engine σ) (poll : Machine σ → Bool) (text : Text) (m : Machine σ) :
    e.scanAll poll text m = e.scanFrom poll .initial 0 {} text m := by
  have whole : Text.dropBytes 0 (Text.takeBytes (Text.byteLength text) text) = text := by
    rw [Text.takeBytes_of_byteLength_le (Nat.le_refl _)]
    exact Text.dropBytes_byteLength_append [] text
  simp only [scanAll, scan, wholeRange, Text.offset_start, Text.offset_endPosition, Nat.zero_min,
    whole]
  by_cases empty : (Range.mk {} (Text.endPosition text)).isEmpty = true
  · have nothing : text = [] := by
      have order : Text.endPosition text ≤ {} := of_decide_eq_true empty
      have length := Text.offset_mono text order
      rw [Text.offset_endPosition, Text.offset_start] at length
      by_cases nothing : text = []
      · exact nothing
      · exact absurd (Text.byteLength_pos nothing) (Nat.not_lt.2 length)
    subst nothing
    rw [if_pos empty, scanFrom_nil]
  · rw [if_neg empty]

end Engine

namespace Text

variable {σ : Type} {text : Text}

/-- Walking to a boundary and looking its position up come back to it, and any other position
means the last boundary that is not behind it. The table of line starts finds all of them, and
the end of the text among them, so a scan of everything is handed the whole text. -/
theorem positions_name_bytes (small : byteLength text < 0x100000000) (e : Engine σ)
    (poll : Machine σ → Bool) (m : Machine σ) :
    ((∀ p, (LineIndex.ofText text).offset? text p = some (offset text p)) ∧
        (LineIndex.ofText text).endPosition? text = some (endPosition text)) ∧
      (∀ b, IsBoundary text b → offset text (Position.walked {} text b) = b) ∧
      (∀ p, IsBoundary text (offset text p) ∧ Position.walked {} text (offset text p) ≤ p ∧
        ∀ b, IsBoundary text b → Position.walked {} text b ≤ p → b ≤ offset text p) ∧
      (∀ p q, p ≤ q → offset text p ≤ offset text q) ∧
      endPosition text = Position.walked {} text (byteLength text) ∧
      offset text (endPosition text) = byteLength text ∧
      e.scanAll poll text m = e.scanFrom poll .initial 0 {} text m := by
  refine ⟨⟨?_, ?_⟩, ?_, ?_, ?_, ?_, ?_, ?_⟩
  · exact LineIndex.offset?_ofText small
  · exact LineIndex.endPosition?_ofText small
  · intro b place
    exact offset_walked place
  · intro p
    refine ⟨isBoundary_offset text p, walked_offset_le text p, ?_⟩
    intro b place before
    have order := offset_mono text before
    rwa [offset_walked place] at order
  · intro p q order
    exact offset_mono text order
  · exact (walked_whole text).symm
  · exact offset_endPosition text
  · exact Engine.scanAll_eq e poll text m

/-- A column far behind the end of its line, between characters of different sizes. -/
theorem positions_name_bytes_of_long_column :
    let text := "é\r\n\n😀x".toList
    let m := Linear.machine 112 112 ({} : Grammar.State)
    byteLength text < 0x100000000 ∧
      (LineIndex.ofText text).offset? text ⟨0, 9⟩ = some 3 ∧
      (LineIndex.ofText text).endPosition? text = some ⟨2, 2⟩ ∧
      IsBoundary text 9 ∧ offset text (Position.walked {} text 9) = 9 ∧
      (∀ b, IsBoundary text b → Position.walked {} text b ≤ ⟨0, 9⟩ → b ≤ 3) ∧
      offset text ⟨0, 9⟩ ≤ offset text ⟨1, 0⟩ ∧
      Grammar.engine.scanAll (fun _ => false) text m =
        Grammar.engine.scanFrom (fun _ => false) .initial 0 {} text m := by
  intro text m
  have small : byteLength text < 0x100000000 := by decide
  have place : IsBoundary text 9 := by decide
  have offset' : offset text ⟨0, 9⟩ = 3 := by decide
  have last : endPosition text = ⟨2, 2⟩ := by decide
  obtain ⟨⟨found, found'⟩, back, greatest, mono, -, -, whole⟩ :=
    positions_name_bytes small Grammar.engine (fun _ => false) m
  refine ⟨small, ?_, ?_, place, back 9 place, ?_, mono _ _ (by decide), whole⟩
  · rw [found, offset']
  · rw [found', last]
  · have before := (greatest ⟨0, 9⟩).2.2
    rwa [offset'] at before

end Text

end SchemaHighlighter
