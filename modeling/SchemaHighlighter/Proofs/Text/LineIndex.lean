import SchemaHighlighter.Text.LineIndex
import SchemaHighlighter.Proofs.Text.Place
import SchemaHighlighter.Proofs.Text.Utf8

/-! # The table of line starts against the text

Everything rests on the first line. A line break is the only character with the byte of one, so
the table of a text begins with byte 0 and goes on with the table of what follows the first line
break, moved by the bytes before. Positions are moved in the same way. -/
namespace SchemaHighlighter

namespace Text

variable {text line rest front : Text} {n start stop k column : Nat}

/-! ## Line breaks among the bytes -/

theorem ofNat_ne_newline {n : Nat} (small : n < 256) (other : n ≠ 10) : UInt8.ofNat n ≠ 0x0A := by
  intro same
  have value := congrArg UInt8.toNat same
  rw [toNat_ofNat_of_lt small] at value
  exact other value

theorem newline_not_mem_utf8EncodeChar {c : Char} (other : c ≠ '\n') :
    (0x0A : UInt8) ∉ String.utf8EncodeChar c := by
  have value : c.toNat ≠ 10 := by
    intro same
    apply other
    rw [← Char.ofNat_toNat c, same]
  intro member
  simp only [String.utf8EncodeChar] at member
  change 0x0A ∈ (if c.toNat ≤ 0x7f then _ else if c.toNat ≤ 0x7ff then _ else
    if c.toNat ≤ 0xffff then _ else _) at member
  by_cases one : c.toNat ≤ 0x7f
  · rw [if_pos one, List.mem_singleton] at member
    exact ofNat_ne_newline (by omega) value member.symm
  · rw [if_neg one] at member
    -- Every byte of a longer character has its highest bit set.
    by_cases two : c.toNat ≤ 0x7ff
    · rw [if_pos two] at member
      simp only [List.mem_cons, List.not_mem_nil, or_false] at member
      rcases member with byte | byte <;>
        exact ofNat_ne_newline (by omega) (by omega) byte.symm
    · rw [if_neg two] at member
      by_cases three : c.toNat ≤ 0xffff
      · rw [if_pos three] at member
        simp only [List.mem_cons, List.not_mem_nil, or_false] at member
        rcases member with byte | byte | byte <;>
          exact ofNat_ne_newline (by omega) (by omega) byte.symm
      · rw [if_neg three] at member
        simp only [List.mem_cons, List.not_mem_nil, or_false] at member
        rcases member with byte | byte | byte | byte <;>
          exact ofNat_ne_newline (by omega) (by omega) byte.symm

theorem newline_not_mem_encode (h : '\n' ∉ text) : (0x0A : UInt8) ∉ encode text := by
  intro member
  obtain ⟨c, inside, member⟩ := List.mem_flatMap.1 member
  apply newline_not_mem_utf8EncodeChar _ member
  rintro rfl
  exact h inside

/-! ## A text behind another -/

theorem takeBytes_append_left (front text : Text) (n : Nat) :
    takeBytes (byteLength front + n) (front ++ text) = front ++ takeBytes n text := by
  induction front with
  | nil => simp
  | cons c front ih =>
    have fits : c.utf8Size ≤ c.utf8Size + byteLength front + n := by omega
    have left : c.utf8Size + byteLength front + n - c.utf8Size = byteLength front + n := by omega
    rw [List.cons_append, byteLength_cons, takeBytes, if_pos fits, left, ih, List.cons_append]

theorem dropBytes_append_left (front text : Text) (n : Nat) :
    dropBytes (byteLength front + n) (front ++ text) = dropBytes n text := by
  induction front with
  | nil => simp
  | cons c front ih =>
    have fits : c.utf8Size ≤ c.utf8Size + byteLength front + n := by omega
    have left : c.utf8Size + byteLength front + n - c.utf8Size = byteLength front + n := by omega
    rw [List.cons_append, byteLength_cons, dropBytes, if_pos fits, left, ih]

/-- What lies in front of a text moves its slices. -/
theorem slice?_append_left (front text : Text) (start stop : Nat) :
    slice? (front ++ text) (byteLength front + start) (byteLength front + stop) =
      slice? text start stop := by
  unfold slice?
  simp only [floorBoundary, takeBytes_append_left, dropBytes_append_left, byteLength_append,
    Nat.add_left_cancel_iff, Nat.add_le_add_iff_left]
  congr

theorem slice?_whole (text : Text) : slice? text 0 (byteLength text) = some text :=
  slice?_eq_some_iff.2 ⟨[], [], by simp, rfl, Nat.zero_add _⟩

/-! ## The first line -/

/-- A text is a line, or a first line and a text behind its line break. -/
theorem lines_induct {motive : Text → Prop} (single : ∀ line, '\n' ∉ line → motive line)
    (split : ∀ line rest, '\n' ∉ line → motive rest → motive (line ++ '\n' :: rest))
    (text : Text) : motive text := by
  induction length : text.length using Nat.strongRecOn generalizing text with
  | ind n ih =>
    by_cases more : '\n' ∈ text
    · obtain ⟨line, rest, rfl, first⟩ := List.eq_append_cons_of_mem more
      apply split line rest first
      apply ih rest.length _ rest rfl
      rw [← length, List.length_append, List.length_cons]
      omega
    · exact single text more

theorem byteLength_of_split (line rest : Text) :
    byteLength (line ++ '\n' :: rest) = byteLength line + 1 + byteLength rest := by
  have newline : byteLength ('\n' :: rest) = 1 + byteLength rest := rfl
  rw [byteLength_append, newline, Nat.add_assoc]

theorem lt_of_split {limit : Nat} (small : byteLength (line ++ '\n' :: rest) < limit) :
    byteLength rest < limit := by
  rw [byteLength_of_split] at small
  omega

theorem offset_cons_column {c : Char} (other : c ≠ '\n') :
    offset (c :: text) ⟨0, column + 1⟩ = c.utf8Size + offset text ⟨0, column⟩ := by
  rw [offset_cons (by simp [Position.IsFirst, other])]
  simp [Position.behind, other]

theorem offset_cons_line {c : Char} (other : c ≠ '\n') :
    offset (c :: text) ⟨k + 1, column⟩ = c.utf8Size + offset text ⟨k + 1, column⟩ := by
  rw [offset_cons (by simp [Position.IsFirst])]
  simp [Position.behind, other]

/-- A column is looked for up to the end of the line. -/
theorem offset_in_line {after : Text} (h : '\n' ∉ line)
    (ends : after = [] ∨ ∃ rest, after = '\n' :: rest) :
    offset (line ++ after) ⟨0, column⟩ = byteLength (line.take column) := by
  induction line generalizing column with
  | nil =>
    rw [List.take_nil, byteLength_nil, List.nil_append]
    rcases ends with rfl | ⟨rest, rfl⟩
    · exact offset_nil
    · exact offset_cons_of_isFirst ⟨rfl, .inr rfl⟩
  | cons c line ih =>
    obtain ⟨other, h⟩ := List.ne_and_not_mem_of_not_mem_cons h
    cases column with
    | zero => exact offset_cons_of_isFirst ⟨rfl, .inl rfl⟩
    | succ column =>
      rw [List.cons_append, offset_cons_column other.symm, ih h, List.take_succ_cons,
        byteLength_cons]

/-- A line behind the last one means the end of the text. -/
theorem offset_behind_line (h : '\n' ∉ line) :
    offset line ⟨k + 1, column⟩ = byteLength line := by
  induction line with
  | nil => exact offset_nil
  | cons c line ih =>
    obtain ⟨other, h⟩ := List.ne_and_not_mem_of_not_mem_cons h
    rw [offset_cons_line other.symm, ih h, byteLength_cons]

theorem offset_in_rest (h : '\n' ∉ line) :
    offset (line ++ '\n' :: rest) ⟨k + 1, column⟩ =
      byteLength line + 1 + offset rest ⟨k, column⟩ := by
  induction line with
  | nil =>
    rw [List.nil_append, offset_cons (by simp [Position.IsFirst])]
    rfl
  | cons c line ih =>
    obtain ⟨other, h⟩ := List.ne_and_not_mem_of_not_mem_cons h
    rw [List.cons_append, offset_cons_line other.symm, ih h, byteLength_cons]
    omega

theorem lastLine_of_line (h : '\n' ∉ line) : lastLine line = line := by
  have all : ∀ c ∈ line.reverse, decide (c ≠ '\n') = true := by
    intro c member
    apply decide_eq_true
    rintro rfl
    exact h (List.mem_reverse.1 member)
  have whole : (line.reverse ++ []).takeWhile (· ≠ '\n') = line.reverse ++ [] :=
    List.takeWhile_append_of_pos all
  rw [List.append_nil] at whole
  rw [lastLine, whole, List.reverse_reverse]

theorem lastLine_of_split (line rest : Text) : lastLine (line ++ '\n' :: rest) = lastLine rest := by
  have last : (rest.reverse ++ '\n' :: line.reverse).takeWhile (· ≠ '\n') =
      rest.reverse.takeWhile (· ≠ '\n') := by
    rw [List.takeWhile_append]
    split
    case isTrue all =>
      rw [List.takeWhile_cons_of_neg (by decide), List.append_nil]
      exact ((List.takeWhile_sublist _).eq_of_length all).symm
    case isFalse => rfl
  rw [lastLine, lastLine, List.reverse_append, List.reverse_cons, List.append_assoc,
    List.singleton_append, last]

theorem count_of_split (h : '\n' ∉ line) :
    (line ++ '\n' :: rest).count '\n' = rest.count '\n' + 1 := by
  rw [List.count_append, List.count_cons_self, List.count_eq_zero.2 h, Nat.zero_add]

end Text

namespace LineIndex

variable {text line rest : Text} {bytes more : List UInt8} {n d k column i : Nat}

/-! ## The table -/

theorem startsFrom_append (h : (0x0A : UInt8) ∉ bytes) :
    startsFrom n (bytes ++ more) = startsFrom (n + bytes.length) more := by
  induction bytes generalizing n with
  | nil => rfl
  | cons b bytes ih =>
    obtain ⟨other, h⟩ := List.ne_and_not_mem_of_not_mem_cons h
    rw [List.cons_append, startsFrom, if_neg other.symm, ih h, List.length_cons, Nat.add_assoc,
      Nat.add_comm 1]

theorem startsFrom_add (small : d + n + bytes.length < 0x100000000) :
    startsFrom (d + n) bytes = (startsFrom n bytes).map (d + ·) := by
  induction bytes generalizing n with
  | nil => rfl
  | cons b bytes ih =>
    rw [List.length_cons] at small
    have next := ih (n := n + 1) (by omega)
    have here : (d + n + 1) % 0x100000000 = d + (n + 1) % 0x100000000 := by omega
    by_cases newline : b = 0x0A
    · rw [startsFrom, startsFrom, if_pos newline, if_pos newline, List.map_cons, here, ← next]
      rfl
    · rw [startsFrom, startsFrom, if_neg newline, if_neg newline, ← next]
      rfl

theorem starts_of_line (h : '\n' ∉ line) : (ofText line).starts = [0] := by
  have none : startsFrom 0 (Text.encode line ++ []) = [] :=
    startsFrom_append (Text.newline_not_mem_encode h)
  rw [List.append_nil] at none
  rw [ofText, none]

theorem starts_of_split (h : '\n' ∉ line)
    (small : Text.byteLength (line ++ '\n' :: rest) < 0x100000000) :
    (ofText (line ++ '\n' :: rest)).starts =
      0 :: (ofText rest).starts.map (Text.byteLength line + 1 + ·) := by
  have split : Text.encode (line ++ '\n' :: rest) =
      Text.encode line ++ 0x0A :: Text.encode rest := by
    have byte : String.utf8EncodeChar '\n' = [0x0A] := by decide
    simp [Text.encode, byte]
  rw [Text.byteLength_of_split] at small
  have room : Text.byteLength line + 1 + 0 + (Text.encode rest).length < 0x100000000 := by
    rw [Text.length_encode]
    omega
  have first : (Text.byteLength line + 1) % 0x100000000 = Text.byteLength line + 1 := by omega
  have moved := startsFrom_add room
  rw [ofText, split, startsFrom_append (Text.newline_not_mem_encode h), Nat.zero_add, startsFrom,
    if_pos rfl, Text.length_encode, first, ofText, List.map_cons, ← moved]

/-! ## What is found in it -/

theorem lineCount_ofText (small : Text.byteLength text < 0x100000000) :
    (ofText text).lineCount = Text.lineCount text := by
  induction text using Text.lines_induct with
  | single line h =>
    rw [lineCount, starts_of_line h, Text.lineCount, List.count_eq_zero.2 h]
    rfl
  | split line rest h ih =>
    have further := ih (Text.lt_of_split small)
    rw [lineCount, Text.lineCount] at further ⊢
    rw [starts_of_split h small, List.length_cons, List.length_map, further,
      Text.count_of_split h]

theorem slice?_in_rest (start stop : Nat) :
    Text.slice? (line ++ '\n' :: rest) (Text.byteLength line + 1 + start)
      (Text.byteLength line + 1 + stop) = Text.slice? rest start stop := by
  have front : Text.byteLength (line ++ ['\n']) = Text.byteLength line + 1 := by
    rw [Text.byteLength_append]
    rfl
  have moved := Text.slice?_append_left (line ++ ['\n']) rest start stop
  rwa [front, List.append_assoc, List.singleton_append] at moved

theorem offset?_of_starts {index : LineIndex} {start stop : Nat}
    (first : index.starts[k]? = some start) (last : index.lineEnd? k = some stop)
    (cut : Text.slice? text start stop = some line) :
    index.offset? text ⟨k, column⟩ = some (start + Text.byteLength (line.take column)) := by
  simp only [offset?, first, last]
  change (Text.slice? text start stop).bind _ = _
  rw [cut]
  rfl

theorem offset?_of_none {index : LineIndex} (none : index.starts[k]? = none) :
    index.offset? text ⟨k, column⟩ = some index.length := by
  simp only [offset?, none]

/-- Either the position lies behind the last line, or its line is cut out. -/
theorem cases_of_offset? {index : LineIndex} (found : index.offset? text ⟨k, column⟩ = some i) :
    index.starts[k]? = none ∧ index.length = i ∨
      ∃ start stop line, index.starts[k]? = some start ∧ index.lineEnd? k = some stop ∧
        Text.slice? text start stop = some line ∧
        start + Text.byteLength (line.take column) = i := by
  simp only [offset?] at found
  cases first : index.starts[k]? with
  | none =>
    rw [first] at found
    exact .inl ⟨rfl, Option.some.inj found⟩
  | some start =>
    rw [first] at found
    obtain ⟨stop, last, found⟩ := Option.bind_eq_some_iff.1 found
    obtain ⟨line, cut, found⟩ := Option.bind_eq_some_iff.1 found
    exact .inr ⟨start, stop, line, rfl, last, cut, Option.some.inj found⟩

theorem getElem?_starts_of_split (h : '\n' ∉ line)
    (small : Text.byteLength (line ++ '\n' :: rest) < 0x100000000) (k : Nat) :
    (ofText (line ++ '\n' :: rest)).starts[k + 1]? =
      (ofText rest).starts[k]?.map (Text.byteLength line + 1 + ·) := by
  rw [starts_of_split h small, List.getElem?_cons_succ, List.getElem?_map]

theorem length_of_split : (ofText (line ++ '\n' :: rest)).length =
    Text.byteLength line + 1 + (ofText rest).length :=
  Text.byteLength_of_split line rest

theorem lineEnd?_of_split {stop : Nat} (h : '\n' ∉ line)
    (small : Text.byteLength (line ++ '\n' :: rest) < 0x100000000)
    (last : (ofText rest).lineEnd? k = some stop) :
    (ofText (line ++ '\n' :: rest)).lineEnd? (k + 1) =
      some (Text.byteLength line + 1 + stop) := by
  rw [lineEnd?] at last ⊢
  rw [getElem?_starts_of_split h small]
  cases next : (ofText rest).starts[k + 1]? with
  | none =>
    rw [next] at last
    rw [Option.map_none, length_of_split, Option.some.inj last]
  | some start =>
    simp only [next] at last
    by_cases positive : 0 < start
    · rw [if_pos positive] at last
      obtain rfl := Option.some.inj last
      simp only [Option.map_some]
      rw [if_pos (by omega), Nat.add_sub_assoc positive]
    · rw [if_neg positive] at last
      cases last

/-- What is found in the rest of a text is found in the text, moved by the first line. -/
theorem offset?_of_split (h : '\n' ∉ line)
    (small : Text.byteLength (line ++ '\n' :: rest) < 0x100000000)
    (found : (ofText rest).offset? rest ⟨k, column⟩ = some i) :
    (ofText (line ++ '\n' :: rest)).offset? (line ++ '\n' :: rest) ⟨k + 1, column⟩ =
      some (Text.byteLength line + 1 + i) := by
  have place := getElem?_starts_of_split h small k
  rcases cases_of_offset? found with ⟨none, rfl⟩ | ⟨start, stop, part, first, last, cut, rfl⟩
  · rw [none] at place
    rw [offset?_of_none place, length_of_split]
  · rw [first] at place
    rw [offset?_of_starts place (lineEnd?_of_split h small last)
      ((slice?_in_rest start stop).trans cut), Nat.add_assoc]

/-- The table finds the byte of every position, without a cut inside a character. -/
theorem offset?_ofText (small : Text.byteLength text < 0x100000000) (p : Position) :
    (ofText text).offset? text p = some (Text.offset text p) := by
  rcases p with ⟨k, column⟩
  induction text using Text.lines_induct generalizing k with
  | single line h =>
    cases k with
    | zero =>
      have last : (ofText line).lineEnd? 0 = some (Text.byteLength line) := by
        rw [lineEnd?, starts_of_line h]
        rfl
      have place : Text.offset (line ++ []) ⟨0, column⟩ = Text.byteLength (line.take column) :=
        Text.offset_in_line h (.inl rfl)
      rw [List.append_nil] at place
      rw [offset?_of_starts (by rw [starts_of_line h]; rfl) last (Text.slice?_whole line), place,
        Nat.zero_add]
    | succ k =>
      rw [offset?_of_none (by rw [starts_of_line h]; rfl), Text.offset_behind_line h]
      rfl
  | split line rest h ih =>
    cases k with
    | zero =>
      have cut : Text.slice? (line ++ '\n' :: rest) 0 (Text.byteLength line) = some line :=
        Text.slice?_eq_some_iff.2 ⟨[], '\n' :: rest, by simp, rfl, Nat.zero_add _⟩
      have last : (ofText (line ++ '\n' :: rest)).lineEnd? 0 = some (Text.byteLength line) := by
        rw [lineEnd?, getElem?_starts_of_split h small]
        rfl
      have first : (ofText (line ++ '\n' :: rest)).starts[0]? = some 0 := by
        rw [starts_of_split h small]
        rfl
      rw [offset?_of_starts first last cut, Text.offset_in_line h (.inr ⟨rest, rfl⟩),
        Nat.zero_add]
    | succ k =>
      rw [Text.offset_in_rest h]
      exact offset?_of_split h small (ih (Text.lt_of_split small) k)

theorem endPosition?_of_start {start : Nat}
    (first : (ofText text).starts[text.count '\n']? = some start)
    (cut : Text.slice? text start (Text.byteLength text) = some line)
    (small : Text.byteLength text < 0x100000000) :
    (ofText text).endPosition? text = some ⟨text.count '\n', line.length⟩ := by
  have last : (ofText text).lineCount - 1 = text.count '\n' := by
    rw [lineCount_ofText small, Text.lineCount, Nat.add_sub_cancel]
  simp only [endPosition?, last, first]
  change (Text.slice? text start (Text.byteLength text)).bind _ = _
  rw [cut]
  rfl

/-- The table leads to the last line, which is cut out whole. -/
theorem exists_lastLine (small : Text.byteLength text < 0x100000000) :
    ∃ start, (ofText text).starts[text.count '\n']? = some start ∧
      Text.slice? text start (Text.byteLength text) = some (Text.lastLine text) := by
  induction text using Text.lines_induct with
  | single line h =>
    refine ⟨0, ?_, ?_⟩
    · rw [starts_of_line h, List.count_eq_zero.2 h]
      rfl
    · rw [Text.lastLine_of_line h]
      exact Text.slice?_whole line
  | split line rest h ih =>
    obtain ⟨start, first, cut⟩ := ih (Text.lt_of_split small)
    refine ⟨Text.byteLength line + 1 + start, ?_, ?_⟩
    · rw [Text.count_of_split h, getElem?_starts_of_split h small, first, Option.map_some]
    · rw [Text.byteLength_of_split, slice?_in_rest, cut, Text.lastLine_of_split]

theorem endPosition?_ofText (small : Text.byteLength text < 0x100000000) :
    (ofText text).endPosition? text = some (Text.endPosition text) := by
  obtain ⟨start, first, cut⟩ := exists_lastLine small
  exact endPosition?_of_start first cut small

end LineIndex

end SchemaHighlighter
