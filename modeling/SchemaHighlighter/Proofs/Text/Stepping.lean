import Mathlib.Order.Bounds.Basic
import SchemaHighlighter.Proofs.Text.LineIndex
import SchemaHighlighter.Text.Position

/-! # Where walking on and stepping back come to

A byte tells by itself whether a character begins with it, so stepping back ends at the last
boundary before the cut. A walk ends there too, as long as its counts have room. The position
there can be told from the text before it. -/
namespace SchemaHighlighter

namespace Text

variable {text before rest line : Text} {c : Char} {b i n : Nat} {p : Position}

/-! ## Stepping back -/

theorem isLead_ofNat {n : Nat} (small : n < 256) :
    isLead (UInt8.ofNat n) = decide (n < 0x80 ∨ 0xC0 ≤ n) := by
  have value := toNat_ofNat_of_lt small
  simp only [isLead, UInt8.lt_iff_toNat_lt, UInt8.le_iff_toNat_le, value, Bool.decide_or]
  rfl

theorem isLead_inside (n : Nat) : isLead (UInt8.ofNat (n % 0x40 + 0x80)) = false := by
  rw [isLead_ofNat (by omega)]
  exact decide_eq_false (by omega)

theorem isLead_first {n : Nat} (small : n < 256) (large : 0xC0 ≤ n) :
    isLead (UInt8.ofNat n) = true := by
  rw [isLead_ofNat small]
  exact decide_eq_true (.inr large)

/-- Of the bytes of a character only the first is one that begins a character. -/
theorem exists_utf8EncodeChar (c : Char) : ∃ lead others,
    String.utf8EncodeChar c = lead :: others ∧ isLead lead = true ∧
      ∀ b ∈ others, isLead b = false := by
  simp only [String.utf8EncodeChar]
  by_cases one : c.val.toNat ≤ 0x7f
  · rw [if_pos one]
    refine ⟨_, _, rfl, ?_, List.forall_mem_nil _⟩
    rw [isLead_ofNat (by omega)]
    exact decide_eq_true (.inl (by omega))
  · rw [if_neg one]
    by_cases two : c.val.toNat ≤ 0x7ff
    · rw [if_pos two]
      exact ⟨_, _, rfl, isLead_first (by omega) (by omega),
        List.forall_mem_singleton.2 (isLead_inside _)⟩
    · rw [if_neg two]
      by_cases three : c.val.toNat ≤ 0xffff
      · rw [if_pos three]
        exact ⟨_, _, rfl, isLead_first (by omega) (by omega),
          List.forall_mem_cons.2 ⟨isLead_inside _, List.forall_mem_singleton.2 (isLead_inside _)⟩⟩
      · rw [if_neg three]
        exact ⟨_, _, rfl, isLead_first (by omega) (by omega),
          List.forall_mem_cons.2 ⟨isLead_inside _, List.forall_mem_cons.2
            ⟨isLead_inside _, List.forall_mem_singleton.2 (isLead_inside _)⟩⟩⟩

theorem encode_cons (c : Char) (rest : Text) :
    encode (c :: rest) = String.utf8EncodeChar c ++ encode rest := rfl

theorem isBoundary_zero (text : Text) : IsBoundary text 0 := ⟨[], text, rfl, rfl⟩

theorem isBoundary_cons : IsBoundary (c :: rest) b ↔
    b = 0 ∨ c.utf8Size ≤ b ∧ IsBoundary rest (b - c.utf8Size) := by
  constructor
  · rintro ⟨before, after, split, rfl⟩
    cases before with
    | nil => exact .inl rfl
    | cons d before =>
      obtain ⟨rfl, rest⟩ := List.cons.inj split
      refine .inr ⟨Nat.le_add_right .., before, after, rest, ?_⟩
      rw [byteLength_cons, Nat.add_sub_cancel_left]
  · rintro (rfl | ⟨inside, before, after, rfl, length⟩)
    · exact isBoundary_zero _
    · refine ⟨c :: before, after, rfl, ?_⟩
      rw [byteLength_cons, length, Nat.add_sub_cancel' inside]

theorem isBoundary_byteLength (text : Text) : IsBoundary text (byteLength text) :=
  ⟨text, [], (List.append_nil text).symm, rfl⟩

theorem IsBoundary.le_byteLength (place : IsBoundary text b) : b ≤ byteLength text := by
  obtain ⟨before, after, rfl, rfl⟩ := place
  rw [byteLength_append]
  exact Nat.le_add_right _ _

/-- In the bytes of a character and of what follows it, those of the character come first. -/
theorem any_isLead_cons_of_lt (inside : i < c.utf8Size) :
    (encode (c :: rest))[i]?.any isLead = decide (i = 0) := by
  obtain ⟨lead, others, bytes, first, further⟩ := exists_utf8EncodeChar c
  have length := String.length_utf8EncodeChar c
  rw [encode_cons, List.getElem?_append_left (length ▸ inside), bytes]
  cases i with
  | zero => exact first
  | succ i =>
    rw [List.getElem?_cons_succ]
    cases found : others[i]? with
    | none => rfl
    | some b => exact further b (List.mem_of_getElem? found)

theorem any_isLead_cons_of_le (behind : c.utf8Size ≤ i) :
    (encode (c :: rest))[i]?.any isLead = (encode rest)[i - c.utf8Size]?.any isLead := by
  have length := String.length_utf8EncodeChar c
  rw [encode_cons, List.getElem?_append_right (length ▸ behind), length]

/-- A byte tells by itself whether a character begins with it. -/
theorem any_isLead_iff :
    (encode text)[i]?.any isLead = true ↔ IsBoundary text i ∧ i < byteLength text := by
  induction text generalizing i with
  | nil => exact iff_of_false Bool.false_ne_true fun h => Nat.not_lt_zero i h.2
  | cons c rest ih =>
    have positive := c.utf8Size_pos
    rw [isBoundary_cons, byteLength_cons]
    by_cases inside : i < c.utf8Size
    · rw [any_isLead_cons_of_lt inside, decide_eq_true_iff]
      omega
    · have behind : c.utf8Size ≤ i := Nat.le_of_not_lt inside
      have later : i ≠ 0 := by omega
      have moved : i - c.utf8Size < byteLength rest ↔ i < c.utf8Size + byteLength rest := by omega
      rw [any_isLead_cons_of_le behind, ih, moved]
      simp only [later, behind, false_or, true_and]

theorem beginsAt_encode : beginsAt (encode text) i = true ↔ IsBoundary text i := by
  simp only [beginsAt, Bool.or_eq_true, beq_iff_eq, length_encode, any_isLead_iff]
  constructor
  · rintro ((rfl | rfl) | ⟨place, -⟩)
    · exact isBoundary_zero text
    · exact isBoundary_byteLength text
    · exact place
  · intro place
    rcases Nat.lt_or_eq_of_le place.le_byteLength with inside | last
    · exact .inr ⟨place, inside⟩
    · exact .inl (.inr last)

/-- Stepping back from `i` ends at the last boundary that is not behind `i`. -/
theorem isGreatest_stepBackFrom (text : Text) (i : Nat) :
    IsGreatest {b | IsBoundary text b ∧ b ≤ i} (stepBackFrom (encode text) i) := by
  induction i with
  | zero => exact ⟨⟨isBoundary_zero text, Nat.le_refl 0⟩, fun b h => h.2⟩
  | succ i ih =>
    rw [stepBackFrom]
    split
    case isTrue begins => exact ⟨⟨beginsAt_encode.1 begins, Nat.le_refl _⟩, fun b h => h.2⟩
    case isFalse divided =>
      obtain ⟨⟨place, near⟩, greatest⟩ := ih
      refine ⟨⟨place, Nat.le_succ_of_le near⟩, ?_⟩
      rintro b ⟨place, near⟩
      have other : b ≠ i + 1 := by
        rintro rfl
        exact divided (beginsAt_encode.2 place)
      exact greatest ⟨place, by omega⟩

theorem isGreatest_floorBoundary (text : Text) (n : Nat) :
    IsGreatest {b | IsBoundary text b ∧ b ≤ min n (byteLength text)} (floorBoundary text n) := by
  constructor
  · exact ⟨isBoundary_floorBoundary text n, Nat.le_min.2
      ⟨floorBoundary_le text n, byteLength_takeBytes_le_byteLength n text⟩⟩
  · rintro b ⟨⟨before, after, rfl, rfl⟩, near⟩
    exact byteLength_le_of_isPrefix (isPrefix_takeBytes_iff.2
      ⟨List.prefix_append before after, (Nat.le_min.1 near).1⟩)

theorem stepBack_eq (text : Text) (n : Nat) : stepBack text n = floorBoundary text n :=
  (isGreatest_stepBackFrom text _).unique (isGreatest_floorBoundary text n)

/-! ## The position at the end of a walk -/

theorem walk_of_line (h : '\n' ∉ line) (p : Position) :
    p.walk line = ⟨p.line, p.column + line.length⟩ := by
  induction line generalizing p with
  | nil => rfl
  | cons c line ih =>
    obtain ⟨other, h⟩ := List.ne_and_not_mem_of_not_mem_cons h
    have next : p.walk (c :: line) = Position.walk ⟨p.line, p.column + 1⟩ line :=
      congrArg (Position.walk · line) (if_neg other.symm)
    rw [next, ih h, List.length_cons, Nat.add_comm line.length, ← Nat.add_assoc]

/-- A walk counts line breaks, and the characters behind the last one. -/
theorem walk_eq (p : Position) (text : Text) :
    p.walk text = ⟨p.line + text.count '\n',
      if '\n' ∈ text then (lastLine text).length else p.column + text.length⟩ := by
  induction text using lines_induct generalizing p with
  | single line first => rw [walk_of_line first, if_neg first, List.count_eq_zero.2 first,
    Nat.add_zero]
  | split line rest first ih =>
    have more : '\n' ∈ line ++ '\n' :: rest := List.mem_append_right line (List.mem_cons_self ..)
    have next : p.walk (line ++ '\n' :: rest) = Position.walk ⟨p.line + 1, 0⟩ rest := by
      rw [Position.walk_append, walk_of_line first]
      rfl
    rw [next, ih, count_of_split first, lastLine_of_split, if_pos more]
    congr 1
    · rw [Nat.add_right_comm, Nat.add_assoc]
    · split
      case isTrue => rfl
      case isFalse last => rw [lastLine_of_line last, Nat.zero_add]

theorem walked_append_left (p : Position) (before rest : Text) (n : Nat) :
    p.walked (before ++ rest) (byteLength before + n) = (p.walk before).walked rest n := by
  rw [Position.walked, takeBytes_append_left, Position.walk_append]
  rfl

theorem walked_floorBoundary (p : Position) (text : Text) (n : Nat) :
    p.walked text (floorBoundary text n) = p.walked text n := by
  rw [Position.walked, takeBytes_floorBoundary]
  rfl

end Text

namespace Position

variable {limit n i : Nat} {p q : Position} {c : Char} {text before rest : Text}

theorem eq_of_advance? (h : p.advance? limit c = some q) : q = p.advance c := by
  rw [advance?] at h
  split at h
  · exact (Option.some.inj h).symm
  · cases h

/-- On the way over a whole text every character lies within the bytes that are asked for. -/
theorem isSome_walkFrom?_cons
    (fits : (walkFrom? limit (i + Text.byteLength (c :: rest)) i p (c :: rest)).isSome) :
    p.advance? limit c = some (p.advance c) ∧
      (walkFrom? limit (i + c.utf8Size + Text.byteLength rest) (i + c.utf8Size) (p.advance c)
        rest).isSome := by
  have inside : ¬ i + Text.byteLength (c :: rest) < i + c.utf8Size := by
    rw [Text.byteLength_cons]
    omega
  rw [walkFrom?, if_neg inside, Text.byteLength_cons, ← Nat.add_assoc] at fits
  cases next : p.advance? limit c with
  | none =>
    rw [next] at fits
    cases fits
  | some q =>
    rw [next, Option.bind_some, eq_of_advance? next] at fits
    exact ⟨congrArg some (eq_of_advance? next), fits⟩

/-- As long as no count comes to its limit on the way over the whole text, the walk goes over the
characters that a cut keeps. -/
theorem walkFrom?_eq_some (covered : i ≤ n)
    (fits : (walkFrom? limit (i + Text.byteLength text) i p text).isSome) :
    walkFrom? limit n i p text = some (p.walk (Text.takeBytes (n - i) text)) := by
  induction text generalizing i p with
  | nil => rfl
  | cons c rest ih =>
    obtain ⟨next, fits⟩ := isSome_walkFrom?_cons fits
    rw [walkFrom?, Text.takeBytes]
    -- the walk counts bytes up and the cut counts them down: both break off at the same character
    by_cases near : i + c.utf8Size ≤ n
    · have left : n - i - c.utf8Size = n - (i + c.utf8Size) := Nat.sub_sub ..
      rw [if_neg (Nat.not_lt.2 near), if_pos (by omega), next, Option.bind_some, ih near fits, left]
      rfl
    · rw [if_pos (by omega), if_neg (by omega)]
      rfl

theorem walked?_eq_some (fits : (p.walked? limit text (Text.byteLength text)).isSome) (n : Nat) :
    p.walked? limit text n = some (p.walked text n) := by
  rw [walked?, ← Nat.zero_add (Text.byteLength text)] at fits
  exact walkFrom?_eq_some (Nat.zero_le n) fits

theorem walkFrom?_add (d : Nat) :
    walkFrom? limit (d + n) (d + i) p text = walkFrom? limit n i p text := by
  induction text generalizing i p with
  | nil => rfl
  | cons c rest ih =>
    have same : d + n < d + (i + c.utf8Size) ↔ n < i + c.utf8Size := by omega
    simp only [walkFrom?, Nat.add_assoc d, same, ih]

/-- If no count comes to its limit on the way over a text, none does on the way over its rest
from the place where that begins. -/
theorem isSome_walkFrom?_rest
    (fits : (walkFrom? limit (i + Text.byteLength (before ++ rest)) i p (before ++ rest)).isSome) :
    ((p.walk before).walked? limit rest (Text.byteLength rest)).isSome := by
  induction before generalizing i p with
  | nil =>
    have moved : walkFrom? limit (i + Text.byteLength rest) (i + 0) p rest =
      p.walked? limit rest (Text.byteLength rest) := walkFrom?_add i
    exact moved ▸ fits
  | cons c before ih => exact ih (isSome_walkFrom?_cons fits).2

end Position

end SchemaHighlighter
