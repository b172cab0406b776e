import SchemaHighlighter.Engine.Grammar
import SchemaHighlighter.Proofs.Highlight.Cursor
import SchemaHighlighter.Proofs.Text.Stepping

/-! # One walk over all that a scan went past

A scan moves its cursor statement by statement. Walks go on where walks end, so the cursor is
always where a single walk over the text from the start of the range leads, whatever the engine
answered in between. -/
namespace SchemaHighlighter

namespace Engine

variable {σ : Type} {e : Engine σ} {poll : Machine σ → Bool} {text : Text} {m : Machine σ}
  {head : Nat × Position}

/-- A scan stands behind a beginning of what it was handed, at the end of the walk over it. -/
theorem exists_walk_of_mem_heads_scanFrom {window : Window} {offset : Nat} {cursor : Position}
    {rest : Text} (member : head ∈ (e.scanFrom poll window offset cursor rest m).heads) :
    ∃ taken, taken <+: rest ∧ head = (offset + Text.byteLength taken, cursor.walk taken) := by
  induction window, offset, cursor, rest, m using scanFrom_induct e poll with
  | nil window offset cursor m =>
    rw [scanFrom_nil] at member
    exact ⟨[], List.nil_prefix, List.mem_singleton.1 member⟩
  | cancelled window offset cursor rest m more cancelled =>
    rw [scanFrom_of_cancelled more cancelled] at member
    exact ⟨[], List.nil_prefix, List.mem_singleton.1 member⟩
  | halted window offset cursor rest m attempts outcome window' m' stop more going run halts =>
    rw [scanFrom_of_halts more going run halts] at member
    exact ⟨[], List.nil_prefix, List.mem_singleton.1 member⟩
  | step window offset cursor rest m attempts result window' m' more going run resumable
      something ih =>
    rw [scanFrom_of_step more going run resumable something] at member
    rcases List.mem_cons.1 member with first | member
    · exact ⟨[], List.nil_prefix, first⟩
    · obtain ⟨taken, begins, stands⟩ := ih member
      have whole := Text.takeBytes_append_dropBytes result.consumed rest
      rw [Text.dropBytes_eq_drop] at whole
      refine ⟨Text.takeBytes result.consumed rest ++ taken, ?_, ?_⟩
      · obtain ⟨left, split⟩ := begins
        exact ⟨left, by rw [List.append_assoc, split, whole]⟩
      · rw [stands, Text.byteLength_append, Position.walk_append, Nat.add_assoc]

/-- Where the range begins there is a boundary, and the scan walks on from there. -/
theorem walked_of_mem_heads_scan {range : Range}
    (member : head ∈ (e.scan poll text range m).heads) :
    let start := min (Text.offset text range.start) (Text.offset text range.stop)
    ∃ rest, Text.slice? text start (Text.byteLength text) = some rest ∧ start ≤ head.1 ∧
      head.2 = range.start.walked rest (head.1 - start) := by
  intro start
  have left := slice?_range text range
  obtain ⟨first, -⟩ := Text.isBoundary_of_slice? left
  obtain ⟨rest, all⟩ := Text.exists_slice? first (Text.isBoundary_byteLength text)
    first.le_byteLength
  refine ⟨rest, all, ?_⟩
  have begins := Text.isPrefix_of_slice? left all (Text.le_of_slice? left).2
  have stands : ∃ taken, taken <+: rest ∧
      head = (start + Text.byteLength taken, range.start.walk taken) := by
    rw [scan] at member
    split at member
    case isTrue empty => exact ⟨[], List.nil_prefix, List.mem_singleton.1 member⟩
    case isFalse nonempty =>
      obtain ⟨taken, inside, stands⟩ := exists_walk_of_mem_heads_scanFrom member
      exact ⟨taken, inside.trans begins, stands⟩
  obtain ⟨taken, ⟨further, rfl⟩, rfl⟩ := stands
  refine ⟨Nat.le_add_right .., ?_⟩
  rw [Nat.add_sub_cancel_left, Position.walked, Text.takeBytes_byteLength_append]

end Engine

namespace Position

open Text

variable {σ : Type} {limit : Nat} {p : Position} {text : Text}

/-- A walk over a text can be made in parts, divided at boundaries, and can be told in closed
form. It ends at the last boundary that is covered, which is also found from behind. So a cursor
that is moved statement by statement is where one walk over all of them ends. -/
theorem walked_in_parts (fits : (p.walked? limit text (byteLength text)).isSome)
    (e : Engine σ) (poll : Machine σ → Bool) (range : Range) (m : Machine σ) :
    (∀ n, p.walked? limit text n = some (p.walked text n)) ∧
      (∀ a, IsBoundary text a → ∃ rest, slice? text a (byteLength text) = some rest ∧
        ((p.walked text a).walked? limit rest (byteLength rest)).isSome ∧
        ∀ n, p.walked text (a + n) = (p.walked text a).walked rest n) ∧
      (∀ n, IsGreatest {b | IsBoundary text b ∧ b ≤ min n (byteLength text)} (stepBack text n) ∧
        floorBoundary text n = stepBack text n ∧
        p.walked text n = p.walked text (stepBack text n)) ∧
      (∀ b, IsBoundary text b → ∃ passed, slice? text 0 b = some passed ∧
        (p.walked text b).line = p.line + passed.count '\n' ∧
        (p.walked text b).column =
          if '\n' ∈ passed then (lastLine passed).length else p.column + passed.length) ∧
      let start := min (offset text range.start) (offset text range.stop)
      ∀ head ∈ (e.scan poll text range m).heads,
        ∃ rest, slice? text start (byteLength text) = some rest ∧ start ≤ head.1 ∧
          head.2 = range.start.walked rest (head.1 - start) := by
  refine ⟨?_, ?_, ?_, ?_, ?_⟩
  · exact walked?_eq_some fits
  · rintro a ⟨before, rest, rfl, rfl⟩
    have reached : p.walked (before ++ rest) (byteLength before) = p.walk before := by
      rw [walked, takeBytes_byteLength_append]
    rw [reached]
    refine ⟨rest, slice?_eq_some_iff.2 ⟨before, [], ?_, rfl, ?_⟩, ?_, ?_⟩
    · rw [List.append_nil]
    · rw [byteLength_append]
    · exact isSome_walkFrom?_rest (i := 0) (by rwa [Nat.zero_add])
    · exact walked_append_left p before rest
  · intro n
    refine ⟨isGreatest_stepBackFrom text _, (stepBack_eq text n).symm, ?_⟩
    rw [stepBack_eq, walked_floorBoundary]
  · rintro b ⟨passed, rest, rfl, rfl⟩
    refine ⟨passed, slice?_eq_some_iff.2 ⟨[], rest, rfl, rfl, Nat.zero_add _⟩, ?_⟩
    rw [walked, takeBytes_byteLength_append, walk_eq]
    exact ⟨rfl, rfl⟩
  · intro start head member
    exact Engine.walked_of_mem_heads_scan member

/-- A walk that would end inside a character on the second line, and the cursor of a scan that
begins there. -/
theorem walked_in_parts_of_umlaut :
    let text := "é\nenum Ä; action b;".toList
    let p : Position := ⟨3, 4⟩
    let range : Range := ⟨⟨1, 0⟩, ⟨9, 0⟩⟩
    let m := Linear.machine 112 112 ({} : Grammar.State)
    (p.walked? 0x10000000000000000 text (byteLength text)).isSome ∧
      p.walked? 0x10000000000000000 text 9 = some ⟨4, 5⟩ ∧ IsBoundary text 3 ∧
      p.walked text (3 + 6) = (p.walked text 3).walked "enum Ä; action b;".toList 6 ∧
      p.walked text 9 = p.walked text 8 ∧ IsBoundary text 8 ∧ (p.walked text 8).column = 5 ∧
      (11, ⟨1, 7⟩) ∈ (Grammar.engine.scan (fun _ => false) text range m).heads ∧
      (⟨1, 7⟩ : Position) = range.start.walked "enum Ä; action b;".toList (11 - 3) := by
  intro text p range m
  have fits : (p.walked? 0x10000000000000000 text (byteLength text)).isSome := by decide +kernel
  have place : IsBoundary text 3 := by decide
  have place' : IsBoundary text 8 := by decide
  have member : (11, ⟨1, 7⟩) ∈ (Grammar.engine.scan (fun _ => false) text range m).heads := by
    decide +kernel
  obtain ⟨checked, parts, back, closed, cursor⟩ :=
    walked_in_parts fits Grammar.engine (fun _ => false) range m
  have behind : slice? text 3 (byteLength text) = some "enum Ä; action b;".toList := by decide
  have before : slice? text 0 8 = some "é\nenum ".toList := by decide
  have last : stepBack text 9 = 8 := by decide
  have named : min (offset text range.start) (offset text range.stop) = 3 := by decide
  obtain ⟨rest, left, -, apart⟩ := parts 3 place
  obtain ⟨passed, taken, -, column⟩ := closed 8 place'
  obtain ⟨-, -, same⟩ := back 9
  obtain ⟨rest', left', -, stands⟩ := cursor _ member
  rw [behind] at left
  rw [before] at taken
  rw [named, behind] at left'
  rw [named] at stands
  cases left
  cases taken
  cases left'
  rw [last] at same
  exact ⟨fits, (checked 9).trans (by decide), place, apart 6, same, place', column, member, stands⟩

end Position

end SchemaHighlighter
