import SchemaHighlighter.Highlight.Delta

/-! # What the relative form keeps

Sorting puts tokens in order of position and leaves those at one position as they came, and no
other list does both. In such a list no difference falls below zero, so that adding the
differences up leads from token to token through the very same positions. -/
namespace SchemaHighlighter

namespace TokenType

theorem name_injective : Function.Injective name := by
  intro t u same
  cases t <;> cases u <;> first | rfl | exact absurd same (by decide)

/-- An index stands for the type whose name the legend has there. -/
theorem ofIndex?_eq_some_iff {n : Nat} {t : TokenType} :
    ofIndex? n = some t ↔ legend.tokenTypes[n]? = some t.name := by
  have listed : legend.tokenTypes[n]? = (ofIndex? n).map name := List.getElem?_map
  rw [listed]
  constructor
  · intro found
    rw [found, Option.map_some]
  · intro found
    obtain ⟨u, found, same⟩ := Option.map_eq_some_iff.1 found
    rw [found, name_injective same]

end TokenType

def Token.position (t : Token) : Position := ⟨t.line, t.column⟩

namespace Delta

variable {tokens ordered other rest : List Token} {t u v : Token} {line column : Nat}

/-! ## The order of the tokens -/

theorem notAfter_iff : notAfter t u = true ↔ t.position ≤ u.position := by
  simp only [notAfter, Bool.or_eq_true, Bool.and_eq_true, decide_eq_true_eq]
  rfl

theorem notAfter_trans (t u v : Token) (h : notAfter t u = true) (h' : notAfter u v = true) :
    notAfter t v = true := by
  rw [notAfter_iff] at h h' ⊢
  exact Position.le_trans h h'

theorem notAfter_total (t u : Token) : (notAfter t u || notAfter u t) = true := by
  rw [Bool.or_eq_true, notAfter_iff, notAfter_iff]
  exact Position.le_total t.position u.position

/-- The same tokens in order of position, those at one position as they came. -/
structure StablySorted (tokens ordered : List Token) : Prop where
  perm : ordered.Perm tokens
  inOrder : ordered.Pairwise fun t u => t.position ≤ u.position
  stable : ∀ p, ordered.filter (·.position = p) = tokens.filter (·.position = p)

theorem pairwise_sorted (tokens : List Token) :
    (sorted tokens).Pairwise fun t u => t.position ≤ u.position :=
  (List.pairwise_mergeSort notAfter_trans notAfter_total tokens).imp notAfter_iff.1

theorem filter_sorted (tokens : List Token) (p : Position) :
    (sorted tokens).filter (·.position = p) = tokens.filter (·.position = p) := by
  have level : (tokens.filter (·.position = p)).Pairwise fun t u => notAfter t u = true := by
    apply List.pairwise_of_forall_mem_list
    intro t member u member'
    have here : t.position = p := of_decide_eq_true (List.mem_filter.1 member).2
    have here' : u.position = p := of_decide_eq_true (List.mem_filter.1 member').2
    rw [notAfter_iff, here, here']
    exact Position.le_refl p
  have kept : (tokens.filter (·.position = p)).Sublist (sorted tokens) :=
    List.sublist_mergeSort notAfter_trans notAfter_total level List.filter_sublist
  have kept' := kept.filter (·.position = p)
  rw [List.filter_filter] at kept'
  simp only [Bool.and_self] at kept'
  have length := ((List.mergeSort_perm tokens notAfter).filter (·.position = p)).length_eq
  exact (kept'.eq_of_length length.symm).symm

theorem stablySorted_sorted (tokens : List Token) : StablySorted tokens (sorted tokens) :=
  ⟨List.mergeSort_perm tokens notAfter, pairwise_sorted tokens, filter_sorted tokens⟩

theorem mem_of_filter_position (same : ∀ p, ordered.filter (·.position = p) =
    other.filter (·.position = p)) (member : t ∈ ordered) : t ∈ other := by
  have here : t ∈ ordered.filter (·.position = t.position) :=
    List.mem_filter.2 ⟨member, decide_eq_true rfl⟩
  rw [same] at here
  exact (List.mem_filter.1 here).1

theorem position_le_of_mem_cons (inOrder : (t :: rest).Pairwise fun t u => t.position ≤ u.position)
    (member : u ∈ t :: rest) : t.position ≤ u.position := by
  rcases List.mem_cons.1 member with rfl | later
  · exact Position.le_refl _
  · exact (List.pairwise_cons.1 inOrder).1 u later

/-- Lists in order that agree at every position are the same. -/
theorem eq_of_filter_position (inOrder : ordered.Pairwise fun t u => t.position ≤ u.position)
    (inOrder' : other.Pairwise fun t u => t.position ≤ u.position)
    (same : ∀ p, ordered.filter (·.position = p) = other.filter (·.position = p)) :
    ordered = other := by
  induction ordered generalizing other with
  | nil =>
    cases other with
    | nil => rfl
    | cons u more =>
      have none : u ∈ [] := mem_of_filter_position (fun p => (same p).symm) (.head _)
      cases none
  | cons t rest ih =>
    cases other with
    | nil =>
      have none : t ∈ [] := mem_of_filter_position same (.head _)
      cases none
    | cons u more =>
      have first : t.position = u.position := by
        apply Position.le_antisymm
        · exact position_le_of_mem_cons inOrder
            (mem_of_filter_position (fun p => (same p).symm) (.head _))
        · exact position_le_of_mem_cons inOrder' (mem_of_filter_position same (.head _))
      have heads := same u.position
      simp only [List.filter_cons, first, decide_true, if_true] at heads
      have tails : ∀ p, rest.filter (·.position = p) = more.filter (·.position = p) := by
        intro p
        have both := same p
        simp only [List.filter_cons, first] at both
        by_cases here : u.position = p
        · simp only [here, decide_true, if_true] at both
          exact (List.cons.inj both).2
        · simp only [here, decide_false, Bool.false_eq_true, if_false] at both
          exact both
      rw [(List.cons.inj heads).1,
        ih (List.pairwise_cons.1 inOrder).2 (List.pairwise_cons.1 inOrder').2 tails]

/-- There is one way to sort without changing the order at a position. -/
theorem stablySorted_iff : StablySorted tokens ordered ↔ ordered = sorted tokens := by
  constructor
  · intro h
    apply eq_of_filter_position h.inOrder (pairwise_sorted tokens)
    intro p
    rw [h.stable, filter_sorted]
  · rintro rfl
    exact stablySorted_sorted tokens

/-! ## The differences -/

/-- A list in order that begins at or behind a line and a column. -/
inductive Ascends : Nat → Nat → List Token → Prop where
  | nil {line column : Nat} : Ascends line column []
  | cons {line column : Nat} {t : Token} {rest : List Token} :
    (⟨line, column⟩ : Position) ≤ t.position → Ascends t.line t.column rest →
      Ascends line column (t :: rest)

theorem ascends_of_pairwise (inOrder : tokens.Pairwise fun t u => t.position ≤ u.position)
    (begins : ∀ t ∈ tokens, (⟨line, column⟩ : Position) ≤ t.position) :
    Ascends line column tokens := by
  induction tokens generalizing line column with
  | nil => exact .nil
  | cons t rest ih =>
    obtain ⟨ahead, inOrder⟩ := List.pairwise_cons.1 inOrder
    exact .cons (begins t (.head _)) (ih inOrder ahead)

theorem ascends_sorted (tokens : List Token) : Ascends 0 0 (sorted tokens) := by
  apply ascends_of_pairwise (pairwise_sorted tokens)
  intro t _
  rw [Position.le_def]
  dsimp only
  omega

/-- A difference, unless it falls below zero. -/
def minus? (n k : Nat) : Option Nat := if k ≤ n then some (n - k) else none

theorem minus?_of_le {n k : Nat} (h : k ≤ n) : minus? n k = some (n - k) := if_pos h

/-- The numbers once more, where a difference below zero ends the program. -/
def unguardedFrom? (line column : Nat) : List Token → Option (List Nat)
  | [] => some []
  | t :: rest => do
    let lines ← minus? t.line line
    let start ← if lines = 0 then minus? t.column column else some t.column
    let numbers ← unguardedFrom? t.line t.column rest
    return lines :: start :: t.length :: t.type.index :: 0 :: numbers

def unguarded? (tokens : List Token) : Option (List Nat) := unguardedFrom? 0 0 (sorted tokens)

theorem le_of_position_le (h : (⟨line, column⟩ : Position) ≤ t.position) :
    line ≤ t.line ∧ (t.line - line = 0 → t.line = line ∧ column ≤ t.column) := by
  rw [Position.le_def] at h
  simp only [Token.position] at h
  omega

/-- No difference falls below zero. -/
theorem unguardedFrom?_of_ascends (ascends : Ascends line column tokens) :
    unguardedFrom? line column tokens = some (encodeFrom line column tokens) := by
  induction ascends with
  | nil => rfl
  | @cons line column t rest begins _ ih =>
    obtain ⟨forward, onLine⟩ := le_of_position_le begins
    rw [unguardedFrom?, encodeFrom, minus?_of_le forward, ih]
    by_cases same : t.line = line
    · have across := (onLine (by omega)).2
      simp [same, minus?_of_le across]
    · have further : t.line - line ≠ 0 := by omega
      simp [same, further]

example : unguardedFrom? 0 0 [⟨0, 8, 4, .keyword⟩, ⟨0, 0, 7, .keyword⟩] = none := by decide

theorem length_encodeFrom (line column : Nat) (tokens : List Token) :
    (encodeFrom line column tokens).length = 5 * tokens.length := by
  induction tokens generalizing line column with
  | nil => rfl
  | cons t rest ih =>
    simp only [encodeFrom, List.length_cons, ih]
    omega

theorem modifiers_encodeFrom (line column : Nat) (tokens : List Token) (k : Fin tokens.length) :
    (encodeFrom line column tokens)[5 * k.val + 4]? = some 0 := by
  induction tokens generalizing line column with
  | nil => exact k.elim0
  | cons t rest ih =>
    rcases k with ⟨k, inside⟩
    cases k with
    | zero => rfl
    | succ k => exact ih t.line t.column ⟨k, Nat.lt_of_succ_lt_succ inside⟩

/-- The differences add up to the positions again. -/
theorem decodeFrom?_encodeFrom (ascends : Ascends line column tokens) :
    decodeFrom? line column (encodeFrom line column tokens) = some tokens := by
  induction ascends with
  | nil => rfl
  | @cons line column t rest begins _ ih =>
    obtain ⟨forward, onLine⟩ := le_of_position_le begins
    have lines : line + (t.line - line) = t.line := by omega
    have columns : (if t.line - line = 0 then
        column + (if t.line = line then t.column - column else t.column)
        else if t.line = line then t.column - column else t.column) = t.column := by
      by_cases same : t.line = line
      · have across := (onLine (by omega)).2
        rw [if_pos (by omega), if_pos same]
        omega
      · rw [if_neg (by omega), if_neg same]
    simp only [encodeFrom, decodeFrom?, TokenType.ofIndex?_index, lines, columns, ih]
    rfl

/-- The relative form loses nothing but the order in which tokens came. No difference falls below
zero, each token takes five numbers of which the last tells of no modifier, and what is read back
is the one list that has the tokens in order of position and those at one position as they came. -/
theorem encode_lossless (tokens : List Token) :
    unguarded? tokens = some (encode tokens) ∧
      (encode tokens).length = 5 * tokens.length ∧
      (∃ ordered, StablySorted tokens ordered) ∧
      (∀ ordered, StablySorted tokens ordered ↔ decode? (encode tokens) = some ordered) ∧
      (∀ n t, TokenType.ofIndex? n = some t ↔ legend.tokenTypes[n]? = some t.name) ∧
      ∀ k : Fin tokens.length, (encode tokens)[5 * k.val + 4]? = some 0 := by
  have perm : (sorted tokens).Perm tokens := List.mergeSort_perm tokens notAfter
  have back : decode? (encode tokens) = some (sorted tokens) :=
    decodeFrom?_encodeFrom (ascends_sorted tokens)
  refine ⟨?_, ?_, ⟨sorted tokens, ?_⟩, ?_, ?_, ?_⟩
  · exact unguardedFrom?_of_ascends (ascends_sorted tokens)
  · rw [encode, length_encodeFrom, perm.length_eq]
  · exact stablySorted_sorted tokens
  · intro ordered
    rw [stablySorted_iff, back]
    constructor
    · rintro rfl
      rfl
    · intro read
      exact (Option.some.inj read).symm
  · intro n t
    exact TokenType.ofIndex?_eq_some_iff
  · intro k
    exact modifiers_encodeFrom 0 0 (sorted tokens) (k.cast perm.length_eq.symm)

end Delta

end SchemaHighlighter
