import Mathlib.Order.Bounds.Basic
import SchemaHighlighter.Proofs.Text.Search

/-! # The last whole word

The search goes from right to left and leaves out what overlaps an occurrence that it met. An
occurrence that ends inside another one is followed by a character of that one. If those are
word characters it is no whole word, so no whole word is left out, and the first that is met
is the last there is. This holds for any set of characters as the word characters. -/
namespace SchemaHighlighter.Text

variable {isWord : Char → Bool} {text keyword before earlier later : Text} {limit skip i : Nat}

/-- The keyword stands at byte `i`, ends at or before byte `limit`, and no word character touches
either end of it. -/
def WordAt (isWord : Char → Bool) (text keyword : Text) (limit i : Nat) : Prop :=
  ∃ before after, text = before ++ keyword ++ after ∧ byteLength before = i ∧
    i + byteLength keyword ≤ limit ∧ (∀ c ∈ before.getLast?, isWord c = false) ∧
    ∀ c ∈ after.head?, isWord c = false

/-! ## What is met -/

/-- What is met is met from right to left. -/
theorem pairwise_occurrencesBack (nonempty : keyword ≠ []) (before : Text) (skip : Nat) :
    (occurrencesBack keyword before skip).Pairwise (· > ·) := by
  induction before generalizing skip with
  | nil =>
    cases skip with
    | zero =>
      have elsewhere : keyword.isPrefixOf [] = false := by
        cases keyword with
        | nil => exact absurd rfl nonempty
        | cons => rfl
      simp [occurrencesBack, elsewhere]
    | succ skip => exact List.Pairwise.nil
  | cons c passed ih =>
    cases skip with
    | zero =>
      simp only [occurrencesBack]
      refine List.pairwise_append.2 ⟨?_, ih _, ?_⟩
      · by_cases found : keyword.isPrefixOf (c :: passed) = true
        · rw [if_pos found]
          exact List.pairwise_singleton _ _
        · rw [if_neg found]
          exact List.Pairwise.nil
      · intro i here j there
        by_cases found : keyword.isPrefixOf (c :: passed) = true
        · rw [if_pos found, List.mem_singleton] at here
          obtain ⟨earlier, later, rfl, rfl⟩ := mem_occurrencesBack there
          have inside : keyword.length ≤ (c :: (later ++ keyword)).length := by
            rw [List.length_cons, List.length_append]
            omega
          have between : (c :: (later ++ keyword)).drop keyword.length ≠ [] := by
            intro none
            have length := congrArg List.length none
            rw [List.length_drop, List.length_cons, List.length_append, List.length_nil] at length
            omega
          have positive := byteLength_pos between
          rw [here, ← List.cons_append, List.drop_append_of_le_length inside, byteLength_append]
          omega
        · rw [if_neg found] at here
          cases here
    | succ skip => exact ih skip

/-- No whole word ends inside an occurrence of the keyword. -/
theorem length_le_of_alone (word : ∀ c ∈ keyword, isWord c = true) {passed : Text}
    (found : keyword <+: later ++ passed) (something : later ≠ [])
    (alone : ∀ c ∈ later.getLast?, isWord c = false) : keyword.length ≤ later.length := by
  apply Nat.le_of_not_lt
  intro shorter
  have inside : later <+: keyword :=
    List.prefix_of_prefix_length_le (List.prefix_append later passed) found (Nat.le_of_lt shorter)
  have last : later.getLast something ∈ keyword := inside.subset (List.getLast_mem something)
  have blank := alone _ (List.getLast?_eq_some_getLast something)
  rw [word _ last] at blank
  cases blank

/-- A whole word is met, whatever was met and passed over before. -/
theorem mem_occurrencesBack_of_alone (nonempty : keyword ≠ [])
    (word : ∀ c ∈ keyword, isWord c = true) (alone : ∀ c ∈ later.getLast?, isWord c = false)
    (passed : skip ≤ later.length) :
    byteLength earlier ∈ occurrencesBack keyword (later ++ keyword ++ earlier) skip := by
  induction later generalizing skip with
  | nil =>
    obtain rfl : skip = 0 := Nat.le_zero.1 passed
    have found : keyword.isPrefixOf (keyword ++ earlier) = true :=
      List.isPrefixOf_iff_prefix.2 (List.prefix_append keyword earlier)
    obtain ⟨c, rest, rfl⟩ := List.exists_cons_of_ne_nil nonempty
    rw [List.cons_append] at found
    simp only [List.nil_append, List.cons_append, occurrencesBack, found, if_true]
    rw [← List.cons_append, List.drop_left]
    exact .head _
  | cons c later ih =>
    have alone' : ∀ c ∈ later.getLast?, isWord c = false := by
      intro d last
      apply alone
      rw [List.getLast?_cons, Option.mem_def.1 last]
      rfl
    cases skip with
    | zero =>
      simp only [List.cons_append, occurrencesBack]
      apply List.mem_append_right
      apply ih alone'
      by_cases found : keyword.isPrefixOf (c :: (later ++ keyword ++ earlier)) = true
      · rw [if_pos found]
        have begins : keyword <+: (c :: later) ++ (keyword ++ earlier) := by
          rw [List.cons_append, ← List.append_assoc]
          exact List.isPrefixOf_iff_prefix.1 found
        have far := length_le_of_alone word begins (List.cons_ne_nil c later) alone
        rw [List.length_cons] at far
        omega
      · rw [if_neg found]
        exact Nat.zero_le _
    | succ skip =>
      rw [List.length_cons] at passed
      exact ih alone' (by omega)

/-! ## The first that is met -/

theorem wordAt_iff (nonempty : keyword ≠ []) (word : ∀ c ∈ keyword, isWord c = true) :
    WordAt isWord text keyword limit i ↔ i ∈ occurrencesBefore text keyword limit ∧
      isWholeWord isWord text i (i + byteLength keyword) = true := by
  constructor
  · rintro ⟨before, after, rfl, rfl, fits, left, right⟩
    rw [← byteLength_append] at fits
    obtain ⟨between, taken⟩ := isPrefix_takeBytes_iff.2 ⟨List.prefix_append _ after, fits⟩
    constructor
    · have whole := takeBytes_append_dropBytes limit (before ++ keyword ++ after)
      rw [← taken, List.append_assoc _ between] at whole
      have next : ∀ c ∈ between.reverse.getLast?, isWord c = false := by
        intro c first
        rw [List.getLast?_reverse, Option.mem_def] at first
        apply right
        rw [← List.append_cancel_left whole, List.head?_append, first]
        rfl
      have backwards : keyword.reverse ≠ [] := by
        rwa [ne_eq, List.reverse_eq_nil_iff]
      have met : byteLength before.reverse ∈ occurrencesBack keyword.reverse
          (between.reverse ++ keyword.reverse ++ before.reverse) 0 := by
        apply mem_occurrencesBack_of_alone backwards _ next (Nat.zero_le _)
        intro c member
        exact word c (List.mem_reverse.1 member)
      rw [occurrencesBefore, ← taken, List.reverse_append, List.reverse_append,
        ← List.append_assoc, ← byteLength_reverse before]
      exact met
    · rw [isWholeWord, isDelimited_iff, ← byteLength_append, dropBytes_byteLength_append,
        List.append_assoc, takeBytes_byteLength_append]
      exact ⟨left, right⟩
  · rintro ⟨met, alone⟩
    obtain ⟨stands, fits⟩ := slice?_of_mem_occurrencesBefore met
    obtain ⟨left, right⟩ := isDelimited_iff.1 alone
    obtain ⟨before, after, rfl, rfl, -⟩ := slice?_eq_some_iff.1 stands
    rw [List.append_assoc, takeBytes_byteLength_append] at left
    rw [← byteLength_append, dropBytes_byteLength_append] at right
    exact ⟨before, after, rfl, rfl, fits, left, right⟩

/-- In a list that descends the first number of a kind is the greatest. -/
theorem isGreatest_of_find? {numbers : List Nat} {kind : Nat → Bool}
    (descends : numbers.Pairwise (· > ·)) (found : numbers.find? kind = some i) :
    IsGreatest {j | j ∈ numbers ∧ kind j = true} i := by
  obtain ⟨here, passed, ahead, rfl, none⟩ := List.find?_eq_some_iff_append.1 found
  constructor
  · exact ⟨List.mem_append_right _ (.head _), here⟩
  · rintro j ⟨member, also⟩
    rcases List.mem_append.1 member with before | behind
    · have other := none j before
      rw [also] at other
      cases other
    · rcases List.mem_cons.1 behind with rfl | further
      · exact Nat.le_refl _
      · have order := (List.pairwise_append.1 descends).2.1
        exact Nat.le_of_lt ((List.pairwise_cons.1 order).1 j further)

/-- The search for a word finds the last place where it stands by itself, and nothing only if
there is none. What the word characters are does not matter, as long as the word has no other. -/
theorem findKeywordBefore_last (isWord : Char → Bool) (text : Text) (limit : Nat)
    (nonempty : keyword ≠ []) (word : ∀ c ∈ keyword, isWord c = true) :
    (∀ i, findKeywordBefore isWord text keyword limit = some i ↔
        IsGreatest {j | WordAt isWord text keyword limit j} i) ∧
      (findKeywordBefore isWord text keyword limit = none ↔
        ∀ i, ¬ WordAt isWord text keyword limit i) := by
  have descends : (occurrencesBefore text keyword limit).Pairwise (· > ·) := by
    apply pairwise_occurrencesBack
    rwa [ne_eq, List.reverse_eq_nil_iff]
  have greatest : ∀ i, findKeywordBefore isWord text keyword limit = some i →
      IsGreatest {j | WordAt isWord text keyword limit j} i := by
    intro i found
    rw [findKeywordBefore_eq] at found
    simp only [wordAt_iff nonempty word]
    exact isGreatest_of_find? descends found
  have nothing : findKeywordBefore isWord text keyword limit = none ↔
      ∀ i, ¬ WordAt isWord text keyword limit i := by
    simp only [findKeywordBefore_eq, List.find?_eq_none, wordAt_iff nonempty word, not_and]
  refine ⟨fun i => ⟨greatest i, ?_⟩, nothing⟩
  intro last
  cases found : findKeywordBefore isWord text keyword limit with
  | none => exact absurd last.1 (nothing.1 found i)
  | some j => rw [(greatest j found).unique last]

/-- The nearest occurrence is no whole word, and one that overlaps it is passed over. -/
theorem findKeywordBefore_last_of_overlap :
    let text := "aa aaa ä".toList
    let keyword := "aa".toList
    keyword ≠ [] ∧ (∀ c ∈ keyword, isWordChar c = true) ∧
      findKeywordBefore isWordChar text keyword 8 = some 0 ∧
      IsGreatest {j | WordAt isWordChar text keyword 8 j} 0 ∧
      findKeywordBefore isWordChar text keyword 1 = none ∧
      ∀ i, ¬ WordAt isWordChar text keyword 1 i := by
  intro text keyword
  have nonempty : keyword ≠ [] := by decide
  have letter : isWordChar 'a' = true := by decide
  have word : ∀ c ∈ keyword, isWordChar c = true := by
    intro c member
    obtain rfl : c = 'a' := List.eq_of_mem_replicate (show c ∈ List.replicate 2 'a' from member)
    exact letter
  have found : findKeywordBefore isWordChar text keyword 8 = some 0 := by decide +kernel
  have missed : findKeywordBefore isWordChar text keyword 1 = none := by decide +kernel
  obtain ⟨greatest, -⟩ := findKeywordBefore_last isWordChar text 8 nonempty word
  obtain ⟨-, nothing⟩ := findKeywordBefore_last isWordChar text 1 nonempty word
  exact ⟨nonempty, word, found, (greatest 0).1 found, missed, nothing.1 missed⟩

-- Where a keyword has a blank in it, an occurrence that is passed over may be a whole word.
example : findKeywordBefore isWordChar "a a ax".toList "a a".toList 6 = none ∧
    isWholeWord isWordChar "a a ax".toList 0 3 = true := by decide +kernel

end SchemaHighlighter.Text
