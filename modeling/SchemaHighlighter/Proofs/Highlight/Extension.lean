import Mathlib.Data.List.Infix
import SchemaHighlighter.Proofs.Highlight.Cursor
import SchemaHighlighter.Proofs.Highlight.Room

/-! # More text never takes tokens away

A scan of the beginning of a text stays in step with the scan of all of it. Each statement is
answered alike in both, until the beginning ends inside one. -/
namespace SchemaHighlighter

namespace Reference

variable {f : Text → ParseResult} {beginning text : Text}

theorem stepsFrom_isPrefix (stable : PrefixStable f)
    (within : ∀ text, (f text).consumed ≤ Text.byteLength text) (offset : Nat) (cursor : Position)
    (begins : beginning <+: text) :
    stepsFrom f offset cursor beginning <+: stepsFrom f offset cursor text := by
  induction offset, cursor, beginning using stepsFrom_induct f generalizing text with
  | nil offset cursor =>
    rw [stepsFrom_nil]
    exact List.nil_prefix
  | halted offset cursor beginning more ends =>
    rw [stepsFrom_of_halted more ends]
    exact List.nil_prefix
  | step offset cursor beginning more resumable something ih =>
    -- a statement that is found needs no more text, so both scans find it
    have same : f beginning = f text := by
      rcases stable begins with needs | same
      · exact absurd (StatusCode.isTerminal_of_needsMoreInput needs) resumable
      · exact same
    have far : Text.takeBytes (f text).consumed text <+: beginning := by
      apply Text.isPrefix_of_byteLength_le (Text.takeBytes_isPrefix _ text) begins
      have inside := within beginning
      have cut := Text.byteLength_takeBytes_le (f text).consumed text
      rw [same] at inside
      exact Nat.le_trans cut inside
    have taken : Text.takeBytes (f beginning).consumed beginning =
        Text.takeBytes (f text).consumed text := by
      rw [← Text.takeBytes_of_isPrefix begins far, ← same]
    have more' : text ≠ [] := by
      rintro rfl
      exact more (List.prefix_nil.1 begins)
    rw [stepsFrom_of_step more resumable something, stepsFrom_of_step more' (by rwa [← same])
      (by rwa [← taken]), ← taken, ← same]
    exact List.cons_prefix_cons.2 ⟨rfl, ih (List.IsPrefix.drop begins _)⟩

/-- The statements of a range are those of the text between its two bytes. -/
theorem steps_of_slice? {range : Range} {rest : Text}
    (part : Text.slice? text (Text.offset text range.start) (Text.offset text range.stop) =
      some rest) :
    steps f text range = stepsFrom f (Text.offset text range.start) range.start rest := by
  have length := Text.le_of_slice? part
  have order : Text.offset text range.start ≤ Text.offset text range.stop := by omega
  by_cases empty : range.isEmpty = true
  · have bytes := Text.offset_mono text (of_decide_eq_true empty)
    have nothing : rest = [] := by
      by_contra more
      have positive := Text.byteLength_pos more
      omega
    rw [steps, if_pos empty, nothing, stepsFrom_nil]
  · rw [steps, if_neg empty, Nat.min_eq_left order, ← Text.eq_of_slice? part]

theorem steps_isPrefix (stable : PrefixStable f)
    (within : ∀ text, (f text).consumed ≤ Text.byteLength text) (start : Position)
    {stop stop' : Position} (order : stop ≤ stop') :
    steps f text ⟨start, stop⟩ <+: steps f text ⟨start, stop'⟩ := by
  by_cases empty : Range.isEmpty ⟨start, stop⟩ = true
  · rw [steps, if_pos empty]
    exact List.nil_prefix
  · obtain ⟨first, first'⟩ : start ≤ stop ∧ start ≤ stop' := by
      rw [Range.isEmpty, decide_eq_true_iff] at empty
      simp only [Position.le_def] at empty order ⊢
      omega
    obtain ⟨part, taken⟩ := Text.exists_slice?_of_le text first
    obtain ⟨part', taken'⟩ := Text.exists_slice?_of_le text first'
    rw [steps_of_slice? taken, steps_of_slice? taken']
    exact stepsFrom_isPrefix stable within _ start
      (Text.isPrefix_of_slice? taken taken' (Text.offset_mono text order))

theorem steps_wholeRange (f : Text → ParseResult) (text : Text) :
    steps f text (Engine.wholeRange text) = stepsFrom f 0 {} text := by
  have part : Text.slice? text (Text.offset text (Engine.wholeRange text).start)
      (Text.offset text (Engine.wholeRange text).stop) = some text := by
    rw [Engine.wholeRange, Text.offset_start, Text.offset_endPosition, Text.slice?_eq_some_iff]
    exact ⟨[], [], (List.append_nil _).symm, rfl, Nat.zero_add _⟩
  rw [steps_of_slice? part, Engine.wholeRange, Text.offset_start]

end Reference

namespace Engine

variable {τ : Type} {parse : ParseCall → Action (Linear τ) Int} {m : Machine (Linear τ)}
  {own : τ → Prop} {f : Text → ParseResult} {isWord : Char → Bool}

theorem tokens_scan_isPrefix (pure : Pure f own parse) (stable : PrefixStable f)
    (fit : Serviceable own m) (poll : Machine (Linear τ) → Bool) (text : Text) (range : Range) :
    ((linear parse).scan poll text range m).tokens isWord <+:
      Reference.tokens isWord f text range := by
  simp only [scan, Reference.tokens, Reference.steps]
  split
  · exact List.prefix_rfl
  · exact (tokens_scanFrom pure stable poll .initial _ range.start fit).1

/-- A scan of more of a text, or of a text that goes on, has all the tokens of the shorter scan
before any other. The shorter scan may also end early, of itself or for want of room. -/
theorem scan_extends_tokens (pure : Pure f own parse) (stable : PrefixStable f)
    (m m' : Machine (Linear τ)) (fit : Serviceable own m) (poll : Machine (Linear τ) → Bool) :
    (∀ text, Spacious own (Text.byteLength text) m' → ∀ start stop stop' : Position,
      stop ≤ stop' →
        ((linear parse).scan poll text ⟨start, stop⟩ m).tokens isWord <+:
          ((linear parse).scan (fun _ => false) text ⟨start, stop'⟩ m').tokens isWord) ∧
    ∀ text more, Spacious own (Text.byteLength (text ++ more)) m' →
      ((linear parse).scanAll poll text m).tokens isWord <+:
        ((linear parse).scanAll (fun _ => false) (text ++ more) m').tokens isWord := by
  constructor
  · intro text spacious start stop stop' order
    apply (tokens_scan_isPrefix pure stable fit poll text ⟨start, stop⟩).trans
    rw [tokens_scan isWord pure stable _ spacious (Nat.le_refl _)]
    apply List.IsPrefix.flatMap
    exact Reference.steps_isPrefix stable pure.bounded start order
  · intro text more spacious
    have begins : text <+: text ++ more := List.prefix_append text more
    apply (tokens_scan_isPrefix pure stable fit poll text (wholeRange text)).trans
    rw [scanAll, tokens_scan isWord pure stable _ spacious (Nat.le_refl _)]
    apply List.IsPrefix.flatMap
    rw [Reference.steps_wholeRange, Reference.steps_wholeRange]
    exact Reference.stepsFrom_isPrefix stable pure.bounded 0 {} begins

/-- A range that ends inside a name, and a text that is cut off there. -/
theorem scan_extends_tokens_of_grammar :
    let m := Linear.machine 256 128 ({} : Grammar.State)
    let text := "package a;\nenum Ä".toList
    let more := "B;".toList
    let e := Engine.linear Grammar.engine.parse
    Spacious (fun s => s.faults = {}) (Text.byteLength (text ++ more)) m ∧
      (⟨1, 6⟩ : Position) ≤ ⟨9, 0⟩ ∧
      (e.scan (fun _ => false) (text ++ more) ⟨{}, ⟨1, 6⟩⟩ m).tokens Text.isWordChar <+:
        (e.scan (fun _ => false) (text ++ more) ⟨{}, ⟨9, 0⟩⟩ m).tokens Text.isWordChar ∧
      (e.scanAll (fun _ => false) text m).tokens Text.isWordChar <+:
        (e.scanAll (fun _ => false) (text ++ more) m).tokens Text.isWordChar := by
  intro m text more e
  have fit : Serviceable (fun s => s.faults = {}) m := ⟨Linear.sound_machine _ (by decide), rfl⟩
  have spacious : Spacious (fun s => s.faults = {}) (Text.byteLength (text ++ more)) m :=
    ⟨fit, by decide +kernel⟩
  obtain ⟨ranges, texts⟩ := scan_extends_tokens Grammar.pure_engine Grammar.prefixStable_result
    m m fit fun _ => false
  exact ⟨spacious, by decide, ranges _ spacious {} ⟨1, 6⟩ ⟨9, 0⟩ (by decide),
    texts text more spacious⟩

end Engine

end SchemaHighlighter
