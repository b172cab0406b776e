import SchemaHighlighter.Text.Word
import SchemaHighlighter.Proofs.Text.Slice

/-! # What the keyword search meets

The search is the first whole word among the occurrences of the keyword before a limit, taken
from the limit backwards and without overlap. -/
namespace SchemaHighlighter.Text

/-- Where occurrences begin in a text that is read backwards, like the keyword. None of them
ends before `skip` characters are passed. -/
def occurrencesBack (keyword : Text) : Text → Nat → List Nat
  | before, 0 =>
    (if keyword.isPrefixOf before then [byteLength (before.drop keyword.length)] else []) ++
      match before with
      | [] => []
      | _ :: passed =>
        occurrencesBack keyword passed (if keyword.isPrefixOf before then keyword.length - 1 else 0)
  | [], _ + 1 => []
  | _ :: passed, skip + 1 => occurrencesBack keyword passed skip

/-- The bytes at which the search before `limit` meets the keyword, in its own order. -/
def occurrencesBefore (text keyword : Text) (limit : Nat) : List Nat :=
  occurrencesBack keyword.reverse (takeBytes limit text).reverse 0

variable {isWord : Char → Bool} {text keyword before rest : Text} {limit skip i : Nat}

theorem byteLength_reverse (text : Text) : byteLength text.reverse = byteLength text := by
  induction text with
  | nil => rfl
  | cons c rest ih => simp only [List.reverse_cons, byteLength_append, byteLength_cons, ih,
      byteLength_nil]; omega

theorem eq_append_of_isPrefixOf (h : keyword.isPrefixOf before = true) :
    keyword ++ before.drop keyword.length = before :=
  List.prefix_iff_eq_append.1 (List.isPrefixOf_iff_prefix.1 h)

/-- Where a keyword ends, whether it is a whole word shows in its two neighbours. -/
theorem isWholeWord_of_isPrefixOf (isWord : Char → Bool) (rest : Text)
    (h : keyword.isPrefixOf before = true) :
    isWholeWord isWord (before.reverse ++ rest) (byteLength (before.drop keyword.length))
        (byteLength (before.drop keyword.length) + byteLength keyword) =
      isDelimited isWord (before.drop keyword.length).head? rest.head? := by
  generalize left : before.drop keyword.length = earlier
  have split : before.reverse ++ rest = earlier.reverse ++ (keyword.reverse ++ rest) := by
    rw [← eq_append_of_isPrefixOf h, left, List.reverse_append, List.append_assoc]
  unfold isWholeWord
  rw [split, ← byteLength_reverse earlier, takeBytes_byteLength_append, List.getLast?_reverse,
    ← byteLength_reverse keyword, ← byteLength_append, ← List.append_assoc,
    dropBytes_byteLength_append]

theorem searchBack_eq (keyword before rest : Text) (skip : Nat) :
    searchBack isWord keyword before rest.head? skip =
      (occurrencesBack keyword before skip).find? fun i =>
        isWholeWord isWord (before.reverse ++ rest) i (i + byteLength keyword) := by
  induction before generalizing rest skip with
  | nil =>
    cases skip with
    | zero =>
      cases found : keyword.isPrefixOf ([] : Text) with
      | false => simp [searchBack, occurrencesBack, found]
      | true =>
        have whole := isWholeWord_of_isPrefixOf isWord rest found
        cases delimited : isDelimited isWord (List.drop keyword.length []).head? rest.head? <;>
          simp_all [searchBack, occurrencesBack]
    | succ skip => rfl
  | cons c passed ih =>
    have shifted : (c :: passed).reverse ++ rest = passed.reverse ++ c :: rest := by
      rw [List.reverse_cons, List.append_assoc, List.singleton_append]
    cases skip with
    | zero =>
      cases found : keyword.isPrefixOf (c :: passed) with
      | false =>
        unfold searchBack occurrencesBack
        simp only [found, Bool.false_and, Bool.false_eq_true, if_false, List.nil_append, shifted]
        exact ih (c :: rest) 0
      | true =>
        have whole := isWholeWord_of_isPrefixOf isWord rest found
        unfold searchBack occurrencesBack
        simp only [found, Bool.true_and, if_true, List.singleton_append, List.find?_cons, whole]
        cases isDelimited isWord (List.drop keyword.length (c :: passed)).head? rest.head? with
        | true => rfl
        | false =>
          simp only [Bool.false_eq_true, if_false, shifted]
          exact ih (c :: rest) _
    | succ skip =>
      simp only [searchBack, occurrencesBack, shifted]
      exact ih (c :: rest) skip

theorem findKeywordBefore_eq (text keyword : Text) (limit : Nat) :
    findKeywordBefore isWord text keyword limit =
      (occurrencesBefore text keyword limit).find? fun i =>
        isWholeWord isWord text i (i + byteLength keyword) := by
  rw [findKeywordBefore, searchBack_eq, List.reverse_reverse, takeBytes_append_dropBytes,
    byteLength_reverse]
  rfl

theorem mem_occurrencesBack (h : i ∈ occurrencesBack keyword before skip) :
    ∃ earlier later, before = later ++ keyword ++ earlier ∧ byteLength earlier = i := by
  induction before generalizing skip with
  | nil =>
    cases skip with
    | zero =>
      simp only [occurrencesBack, List.append_nil] at h
      split at h
      case isTrue found =>
        rw [List.mem_singleton.1 h]
        exact ⟨_, [], (eq_append_of_isPrefixOf found).symm, rfl⟩
      case isFalse => cases h
    | succ => cases h
  | cons c passed ih =>
    have further : ∀ skip, i ∈ occurrencesBack keyword passed skip →
        ∃ earlier later, c :: passed = later ++ keyword ++ earlier ∧ byteLength earlier = i := by
      intro skip h
      obtain ⟨earlier, later, split, length⟩ := ih h
      exact ⟨earlier, c :: later, by rw [split]; rfl, length⟩
    cases skip with
    | zero =>
      simp only [occurrencesBack] at h
      rcases List.mem_append.1 h with here | there
      · split at here
        case isTrue found =>
          rw [List.mem_singleton.1 here]
          exact ⟨_, [], (eq_append_of_isPrefixOf found).symm, rfl⟩
        case isFalse => cases here
      · exact further _ there
    | succ skip => exact further skip h

theorem slice?_of_mem_occurrencesBefore (h : i ∈ occurrencesBefore text keyword limit) :
    slice? text i (i + byteLength keyword) = some keyword ∧ i + byteLength keyword ≤ limit := by
  obtain ⟨earlier, later, split, rfl⟩ := mem_occurrencesBack h
  have taken := congrArg List.reverse split
  simp only [List.reverse_append, List.reverse_reverse, ← List.append_assoc] at taken
  have whole := takeBytes_append_dropBytes limit text
  have fits := byteLength_takeBytes_le limit text
  rw [taken, List.append_assoc _ later.reverse] at whole
  rw [taken, byteLength_append, byteLength_append, byteLength_reverse earlier] at fits
  refine ⟨slice?_eq_some_iff.2 ⟨_, _, whole.symm, byteLength_reverse earlier, rfl⟩, by omega⟩

/-- Both neighbours of a place inside an occurrence are characters of it. -/
theorem neighbours_inside {b : Nat} (stands : slice? text i (i + byteLength keyword) = some keyword)
    (place : IsBoundary text b) (first : i < b) (last : b < i + byteLength keyword) :
    (∃ c ∈ keyword, (takeBytes b text).getLast? = some c) ∧
      ∃ d ∈ keyword, (dropBytes b text).head? = some d := by
  obtain ⟨before, after, rfl, rfl, -⟩ := slice?_eq_some_iff.1 stands
  obtain ⟨upTo, beyond, split, rfl⟩ := place
  obtain ⟨one, rfl⟩ : before <+: upTo :=
    isPrefix_of_byteLength_le ⟨keyword ++ after, by rw [List.append_assoc]⟩ ⟨beyond, split.symm⟩
      (by omega)
  obtain ⟨two, rest⟩ : before ++ one <+: before ++ keyword :=
    isPrefix_of_byteLength_le ⟨beyond, split.symm⟩ ⟨after, rfl⟩ (by
      rw [byteLength_append before keyword]
      omega)
  have parts : keyword = one ++ two := by
    rw [List.append_assoc] at rest
    exact (List.append_cancel_left rest).symm
  subst parts
  simp only [byteLength_append] at first last
  have something : one ≠ [] := by
    rintro rfl
    rw [byteLength_nil] at first
    omega
  have something' : two ≠ [] := by
    rintro rfl
    rw [byteLength_nil] at last
    omega
  have whole : before ++ (one ++ two) ++ after = (before ++ one) ++ (two ++ after) := by
    simp only [List.append_assoc]
  rw [whole, takeBytes_byteLength_append, dropBytes_byteLength_append]
  constructor
  · refine ⟨one.getLast something, List.mem_append_left _ (List.getLast_mem something), ?_⟩
    rw [List.getLast?_append, List.getLast?_eq_some_getLast something, Option.some_or]
  · obtain ⟨d, more, rfl⟩ := List.exists_cons_of_ne_nil something'
    exact ⟨d, List.mem_append_right _ (.head _), rfl⟩

theorem isDelimited_iff {a b : Option Char} :
    isDelimited isWord a b = true ↔ (∀ c ∈ a, isWord c = false) ∧ ∀ c ∈ b, isWord c = false := by
  cases a <;> cases b <;> simp [isDelimited]

/-- Where an occurrence of a word ends or begins no other word goes on. -/
theorem isWholeWord_neighbours {start stop : Nat}
    (whole : isWholeWord isWord text start stop = true) :
    (∀ c, (takeBytes start text).getLast? = some c → isWord c = false) ∧
      ∀ d, (dropBytes stop text).head? = some d → isWord d = false :=
  isDelimited_iff.1 whole

/-- Whole words do not reach into one another. -/
theorem apart_of_isWholeWord {other : Text} {j : Nat} (different : keyword ≠ other)
    (nonempty : keyword ≠ []) (nonempty' : other ≠ [])
    (word : ∀ c ∈ keyword, isWord c = true) (word' : ∀ c ∈ other, isWord c = true)
    (stands : slice? text i (i + byteLength keyword) = some keyword)
    (stands' : slice? text j (j + byteLength other) = some other)
    (whole : isWholeWord isWord text i (i + byteLength keyword) = true)
    (whole' : isWholeWord isWord text j (j + byteLength other) = true) :
    i + byteLength keyword ≤ j ∨ j + byteLength other ≤ i := by
  have outside : ∀ {w v : Text} {a b : Nat}, (∀ c ∈ w, isWord c = true) →
      slice? text a (a + byteLength w) = some w → slice? text b (b + byteLength v) = some v →
      isWholeWord isWord text b (b + byteLength v) = true →
      ¬ (a < b ∧ b < a + byteLength w) ∧
        ¬ (a < b + byteLength v ∧ b + byteLength v < a + byteLength w) := by
    intro w v a b word stands stands' whole
    obtain ⟨first, last⟩ := isBoundary_of_slice? stands'
    obtain ⟨before, after⟩ := isWholeWord_neighbours whole
    constructor
    · rintro ⟨above, below⟩
      obtain ⟨⟨c, member, here⟩, -⟩ := neighbours_inside stands first above below
      exact absurd (word c member) (by rw [before c here]; decide)
    · rintro ⟨above, below⟩
      obtain ⟨-, d, member, here⟩ := neighbours_inside stands last above below
      exact absurd (word d member) (by rw [after d here]; decide)
  have one := outside word stands stands' whole'
  have two := outside word' stands' stands whole
  have positive := byteLength_pos nonempty
  have positive' := byteLength_pos nonempty'
  by_cases same : i = j ∧ byteLength keyword = byteLength other
  · obtain ⟨rfl, length⟩ := same
    rw [length] at stands
    exact absurd (Option.some.inj (stands.symm.trans stands')) different
  · omega

/-- The search passes over what does not hold the last character of the keyword. -/
theorem searchBack_of_not_mem {c : Char} {gap : Text} (absent : c ∉ gap) (after : Option Char) :
    searchBack isWord (c :: keyword) (gap ++ before) after 0 =
      searchBack isWord (c :: keyword) before (gap.getLast?.or after) 0 := by
  induction gap generalizing after with
  | nil => rfl
  | cons d gap ih =>
    obtain ⟨other, absent⟩ := List.ne_and_not_mem_of_not_mem_cons absent
    have elsewhere : (c :: keyword).isPrefixOf (d :: (gap ++ before)) = false := by
      simp [List.isPrefixOf, other]
    rw [List.cons_append, searchBack]
    simp only [elsewhere, Bool.false_and, Bool.false_eq_true, if_false]
    rw [ih absent]
    cases gap <;> simp [List.getLast?_cons]

theorem searchBack_of_isDelimited {after : Option Char}
    (delimited : isDelimited isWord before.head? after = true) :
    searchBack isWord keyword (keyword ++ before) after 0 = some (byteLength before) := by
  have found : keyword.isPrefixOf (keyword ++ before) = true :=
    List.isPrefixOf_iff_prefix.2 (List.prefix_append keyword before)
  unfold searchBack
  simp only [List.drop_left, found, delimited, Bool.and_self, if_true]

/-- A whole word before the limit is found if what lies between does not hold its last
character. -/
theorem findKeywordBefore_append {c : Char} {gap after : Text}
    (last : keyword.getLast? = some c) (absent : c ∉ gap)
    (left : ∀ d ∈ before.getLast?, isWord d = false)
    (right : ∀ d ∈ (gap ++ after).head?, isWord d = false) :
    findKeywordBefore isWord (before ++ keyword ++ gap ++ after) keyword
      (byteLength (before ++ keyword ++ gap)) = some (byteLength before) := by
  obtain ⟨first, rfl⟩ := List.getLast?_eq_some_iff.1 last
  have backwards : (first ++ [c]).reverse = c :: first.reverse := List.reverse_concat ..
  have delimited : isDelimited isWord before.reverse.head? (gap.head?.or after.head?) = true := by
    rw [isDelimited_iff, List.head?_reverse, ← List.head?_append]
    exact ⟨left, right⟩
  have absent' : c ∉ gap.reverse := by rwa [List.mem_reverse]
  have read : (before ++ (first ++ [c]) ++ gap).reverse =
      gap.reverse ++ (c :: first.reverse ++ before.reverse) := by
    rw [List.reverse_append, List.reverse_append, backwards]
  rw [findKeywordBefore, takeBytes_byteLength_append, dropBytes_byteLength_append, backwards, read,
    searchBack_of_not_mem absent', List.getLast?_reverse, searchBack_of_isDelimited delimited,
    byteLength_reverse]

/-- The table agrees with what every version says. -/
theorem continuesIdentifiers_isWordChar : ContinuesIdentifiers isWordChar := by
  constructor
  case ascii =>
    intro c small
    rw [isWordChar, if_pos small]
  case blank =>
    intro c blank
    have none : ∀ n ∈ [0x09, 0x0A, 0x0B, 0x0C, 0x0D, 0x20, 0x85, 0xA0, 0x1680, 0x2000, 0x2001,
        0x2002, 0x2003, 0x2004, 0x2005, 0x2006, 0x2007, 0x2008, 0x2009, 0x200A, 0x2028, 0x2029,
        0x202F, 0x205F, 0x3000], isWordChar (Char.ofNat n) = false := by
      decide +kernel
    rw [← Char.ofNat_toNat c]
    apply none
    simp only [isBlank, Bool.or_eq_true, Bool.and_eq_true, decide_eq_true_eq] at blank
    simp only [List.mem_cons, List.not_mem_nil, or_false]
    omega

end SchemaHighlighter.Text
