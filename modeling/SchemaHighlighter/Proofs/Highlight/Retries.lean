import Mathlib.Data.List.Chain
import SchemaHighlighter.Engine.Playback
import SchemaHighlighter.Proofs.Highlight.Cursor
import SchemaHighlighter.Proofs.Highlight.Windowing

/-! # The attempts at a statement

Whatever the engine answers, the attempts at one statement grow up to the first overflow and
shrink from there on, so they come to an end. Every statement that is passed moves the scan on,
so the scan comes to an end as well. -/
namespace SchemaHighlighter

namespace Window

/-- Once there is a limit, the window is as large as it. -/
def Settled (w : Window) (limit : Option Nat) : Prop := ∀ l ∈ limit, w.size = l

variable {w : Window} {limit : Option Nat}

theorem settled_none (w : Window) : w.Settled none := by
  intro l h
  cases h

theorem Settled.within (h : w.Settled limit) : w.within limit = w.size := by
  cases limit with
  | none => rfl
  | some l => rw [Window.within, h l rfl, Nat.min_self]

theorem Settled.eq_none_of_canGrow (h : w.Settled limit) (grow : w.canGrow limit = true) :
    limit = none := by
  cases limit with
  | none => rfl
  | some l =>
    rw [canGrow, decide_eq_true_eq, h l rfl] at grow
    exact absurd grow (Nat.lt_irrefl l)

end Window

/-- More of the text could have been handed over, and the answer asks for it. -/
def Attempt.CutShort (rest : Text) (a : Attempt) : Prop :=
  a.length < Text.byteLength rest ∧
    ∃ result, a.outcome = .ok result ∧ result.status.code.needsMoreInput = true

/-- The second attempt follows an overflow of the first. -/
def Attempt.Halved (a b : Attempt) : Prop :=
  a.Overflowed ∧ Window.smallest < a.length ∧ b.length < a.length ∧ 2 * b.length ≤ a.length

/-- Up to the first overflow an attempt that cut the statement short is followed by a longer
one, and no other is followed at all. From the first overflow on each is at most half of the
one before. -/
inductive Orderly (rest : Text) : List Attempt → Prop
  | last {a : Attempt} : ¬ a.Overflowed → ¬ a.CutShort rest → Orderly rest [a]
  | longer {a b : Attempt} {later : List Attempt} :
      a.CutShort rest → a.length < b.length → Orderly rest (b :: later) →
        Orderly rest (a :: b :: later)
  | shorter {a : Attempt} {later : List Attempt} :
      a.Overflowed → (a :: later).IsChain Attempt.Halved → Orderly rest (a :: later)

/-- How the attempts at a statement, where `rest` is left of the text, come to their outcome and
lead from one machine to another. -/
structure InOrder {σ : Type} (e : Engine σ) (rest : Text) (before : Machine σ)
    (attempts : List Attempt) (outcome : Except EngineError ParseResult) (after : Machine σ) :
    Prop where
  calls : e.Calls rest before attempts after
  positive : ∀ a ∈ attempts, 0 < a.length
  orderly : Orderly rest attempts
  few : attempts.length ≤ 2 * Text.byteLength rest
  last : ∃ a, attempts.getLast? = some a ∧ a.outcome = outcome
  cut : ∀ result, outcome = .ok result → result.status.code.needsMoreInput = true →
    (∃ a, attempts.getLast? = some a ∧ a.length = Text.byteLength rest) ∨
      ∃ a ∈ attempts, a.Overflowed
  overflow : ∀ requested available, outcome = .error (.stackOverflow requested available) →
    ∃ a ∈ attempts, a.Overflowed ∧ a.length ≤ Window.smallest

/-- The scan ended with this outcome of the attempts at a statement. -/
def Stop.Reports (outcome : Except EngineError ParseResult) : Stop → Prop
  | endOfRange | cancelled => False
  | failed error _ => outcome = .error error
  | terminal status _ => ∃ result, outcome = .ok result ∧ result.status = status
  | noProgress _ => ∃ result, outcome = .ok result

/-- The way of a scan to byte `stop`: statement after statement, each begun on the machine that the
attempts at the one before it left, up to the end. -/
inductive Course {σ : Type} (e : Engine σ) (text : Text) (stop : Nat) :
    Machine σ → List Step → Nat → Stop → Machine σ → Prop
  | endOfRange (m : Machine σ) (offset : Nat) : Course e text stop m [] offset .endOfRange m
  | cancelled (m : Machine σ) (offset : Nat) : Course e text stop m [] offset .cancelled m
  | ended {before after : Machine σ} {offset : Nat} {stopped : Stop} {rest : Text}
      {outcome : Except EngineError ParseResult} :
      Text.slice? text offset stop = some rest → stopped.Reports outcome →
        InOrder e rest before stopped.attempts outcome after →
        Course e text stop before [] offset stopped after
  | step {before between after : Machine σ} {offset : Nat} {stopped : Stop} {rest : Text}
      {step : Step} {later : List Step} :
      Text.slice? text step.offset stop = some rest →
        InOrder e rest before step.attempts (.ok step.result) between →
        Course e text stop between later offset stopped after →
        Course e text stop before (step :: later) offset stopped after

/-- What holds of a scan from byte `start` to byte `stop` that begins on the machine `m`. -/
structure Scan.InOrder {σ : Type} (e : Engine σ) (text : Text) (start stop : Nat) (m : Machine σ)
    (s : Scan σ) : Prop where
  since : ∀ head ∈ s.heads, start ≤ head.1
  forward : (s.heads.map Prod.fst).Pairwise (· < ·)
  inside : s.offset ≤ stop
  few : start + s.steps.length ≤ s.offset
  course : Course e text stop m s.steps s.offset s.stop s.machine

/-- An answer that asks for more is the last only where there is no more, or after an overflow. -/
theorem Orderly.whole_or_overflow {rest : Text} {attempts : List Attempt} {a : Attempt}
    {result : ParseResult} (orderly : Orderly rest attempts)
    (begins : ∀ a ∈ attempts, a.Begins rest) (last : attempts.getLast? = some a)
    (answer : a.outcome = .ok result) (needs : result.status.code.needsMoreInput = true) :
    a.length = Text.byteLength rest ∨ ∃ a ∈ attempts, a.Overflowed := by
  induction orderly with
  | @last b _ whole =>
    have same : b = a := Option.some.inj last
    rw [same] at whole
    obtain ⟨input, ⟨left, split⟩, length⟩ := begins a (List.mem_singleton.2 same.symm)
    have total := congrArg Text.byteLength split
    rw [Text.byteLength_append] at total
    have all : ¬ a.length < Text.byteLength rest := fun inside =>
      whole ⟨inside, result, answer, needs⟩
    left
    omega
  | longer _ _ _ ih =>
    rw [List.getLast?_cons_cons] at last
    rcases ih (fun a later => begins a (.tail _ later)) last with all | ⟨a, later, overflowed⟩
    · exact .inl all
    · exact .inr ⟨a, .tail _ later, overflowed⟩
  | shorter overflowed => exact .inr ⟨_, .head _, overflowed⟩

namespace Engine

section

variable {σ : Type} {e : Engine σ} {rest : Text} {limit : Option Nat} {window : Window}

/-- Every window holds the first character, which takes no more than four bytes. -/
theorem byteLength_shown_pos (more : rest ≠ []) (settled : window.Settled limit) :
    0 < Text.byteLength (shown rest limit window) := by
  have large := window.floor_le
  rw [shown, settled.within]
  by_cases inside : window.size ≤ Text.byteLength rest
  · have lost := Text.le_byteLength_takeBytes rest inside
    omega
  · rw [Text.takeBytes_of_byteLength_le (by omega)]
    exact Text.byteLength_pos more

/-- A larger window holds more, whatever is lost to the characters at both cuts. -/
theorem byteLength_shown_double (inside : window.size < Text.byteLength rest) :
    Text.byteLength (shown rest none window) <
      Text.byteLength (shown rest none window.double) := by
  have large := window.floor_le
  have twice : window.double.size = 2 * window.size := rfl
  have first := Text.byteLength_takeBytes_le window.size rest
  simp only [shown, Window.within]
  by_cases all : Text.byteLength rest ≤ window.double.size
  · rw [Text.takeBytes_of_byteLength_le all]
    omega
  · have lost := Text.le_byteLength_takeBytes rest (n := window.double.size) (by omega)
    omega

theorem byteLength_shown_le_limit (rest : Text) (l : Nat) (window : Window) :
    Text.byteLength (shown rest (some l) window) ≤ l :=
  Nat.le_trans (Text.byteLength_takeBytes_le _ rest) (Nat.min_le_right _ _)

/-- After an overflow the window is settled below half of what overflowed. -/
theorem settled_cap (settled : window.Settled limit)
    (fits : 32 ≤ Text.byteLength (shown rest limit window) / 2) :
    (window.cap _ fits).Settled (some (Text.byteLength (shown rest limit window) / 2)) := by
  have below := Text.byteLength_takeBytes_le (window.within limit) rest
  rw [settled.within] at below
  rintro _ ⟨⟩
  rw [Window.cap]
  simp only [shown, settled.within]
  omega

theorem cut_none_iff (window : Window) (result : ParseResult) :
    Cut rest none window result ↔ Attempt.CutShort rest
      ⟨Text.byteLength (shown rest none window), .ok result⟩ := by
  have begins := Text.takeBytes_isPrefix (window.within none) rest
  constructor
  · rintro ⟨needs, -, more⟩
    exact ⟨(Text.drop_ne_nil_iff begins).1 more, result, rfl, needs⟩
  · rintro ⟨more, _, ⟨⟩, needs⟩
    exact ⟨needs, rfl, (Text.drop_ne_nil_iff begins).2 more⟩

/-- Attempts with a settled window, of which the first is handed what the window holds. -/
structure Tried (rest : Text) (limit : Option Nat) (window : Window) (attempts : List Attempt) :
    Prop where
  first : ∃ outcome later, attempts = ⟨Text.byteLength (shown rest limit window), outcome⟩ :: later
  positive : ∀ a ∈ attempts, 0 < a.length
  orderly : limit = none → Orderly rest attempts
  halved : limit ≠ none → attempts.IsChain Attempt.Halved

theorem Tried.positive_cons {limit' : Option Nat} {window' : Window} {attempts : List Attempt}
    {outcome : Except EngineError ParseResult} (h : Tried rest limit' window' attempts)
    (more : rest ≠ []) (settled : window.Settled limit) :
    ∀ a ∈ ⟨Text.byteLength (shown rest limit window), outcome⟩ :: attempts, 0 < a.length := by
  rintro a (_ | ⟨_, later⟩)
  · exact byteLength_shown_pos more settled
  · exact h.positive a later

/-- After an overflow the attempts go on with at most half of what overflowed. -/
theorem Tried.isChain_cons {a : Attempt} {attempts : List Attempt}
    (h : Tried rest (some (a.length / 2)) window attempts) (overflowed : a.Overflowed)
    (long : Window.smallest < a.length) : (a :: attempts).IsChain Attempt.Halved := by
  obtain ⟨⟨outcome, later, rfl⟩, -, -, halved⟩ := h
  have half := byteLength_shown_le_limit rest (a.length / 2) window
  rw [Window.smallest] at long
  refine List.isChain_cons_cons.2 ⟨⟨overflowed, long, ?_, ?_⟩, halved (Option.some_ne_none _)⟩
  · dsimp only
    omega
  · dsimp only
    omega

theorem tried_parseWithin (more : rest ≠ []) (m : Machine σ) (settled : window.Settled limit) :
    Tried rest limit window (e.parseWithin rest limit window m).attempts := by
  induction limit, window, m using parseWithin_induct e rest with
  | last limit window m outcome m' run final =>
    rw [parseWithin_of_final run final]
    refine ⟨⟨outcome, [], rfl⟩, ?_, ?_, ?_⟩
    · intro a member
      rw [List.mem_singleton.1 member]
      exact byteLength_shown_pos more settled
    · rintro rfl
      by_cases overflowed : Attempt.Overflowed ⟨Text.byteLength (shown rest none window), outcome⟩
      · exact .shorter overflowed (List.isChain_singleton _)
      · refine .last overflowed ?_
        intro cut
        have needs := cut.2
        obtain ⟨result, rfl, _⟩ := needs
        exact final.whole result rfl ((cut_none_iff window result).2 cut)
    · intro _
      exact List.isChain_singleton _
  | longer limit window m result m' run cut further =>
    rw [parseWithin_of_cut run cut]
    obtain rfl := settled.eq_none_of_canGrow cut.2.1
    have tried := further (Window.settled_none _)
    obtain ⟨outcome, later, first⟩ := tried.first
    have short := (cut_none_iff window result).1 cut
    have inside := Text.lt_byteLength_of_drop_ne_nil cut.2.2
    refine ⟨⟨.ok result, _, rfl⟩, tried.positive_cons more settled, ?_, ?_⟩
    · intro _
      have orderly := tried.orderly rfl
      simp only [first] at orderly ⊢
      exact .longer short (byteLength_shown_double inside) orderly
    · intro limited
      exact absurd rfl limited
  | shorter limit window m requested available m' fits run long further =>
    rw [parseWithin_of_overflow run long]
    have tried := further (settled_cap settled fits)
    have overflowed : Attempt.Overflowed ⟨Text.byteLength (shown rest limit window),
      .error (.stackOverflow requested available)⟩ := ⟨requested, available, rfl⟩
    refine ⟨⟨_, _, rfl⟩, tried.positive_cons more settled, ?_, ?_⟩
    · intro _
      exact .shorter overflowed (tried.isChain_cons overflowed long)
    · intro _
      exact tried.isChain_cons overflowed long

/-- The last attempt gives the outcome, and an overflow is the outcome only after a short one. -/
structure Reported (attempts : List Attempt) (outcome : Except EngineError ParseResult) : Prop where
  last : ∃ a, attempts.getLast? = some a ∧ a.outcome = outcome
  overflow : ∀ requested available, outcome = .error (.stackOverflow requested available) →
    ∃ a ∈ attempts, a.Overflowed ∧ a.length ≤ Window.smallest

theorem Reported.cons {attempts : List Attempt} {outcome : Except EngineError ParseResult}
    (h : Reported attempts outcome) (first : Attempt) : Reported (first :: attempts) outcome := by
  obtain ⟨a, last, same⟩ := h.last
  constructor
  · exact ⟨a, by rw [List.getLast?_cons, last, Option.getD_some], same⟩
  · intro requested available failed
    obtain ⟨b, member, overflowed⟩ := h.overflow requested available failed
    exact ⟨b, .tail _ member, overflowed⟩

theorem reported_parseWithin (e : Engine σ) (rest : Text) (limit : Option Nat) (window : Window)
    (m : Machine σ) :
    let w := e.parseWithin rest limit window m
    Reported w.attempts w.outcome := by
  induction limit, window, m using parseWithin_induct e rest with
  | last limit window m outcome m' run final =>
    rw [parseWithin_of_final run final]
    refine ⟨⟨_, rfl, rfl⟩, ?_⟩
    rintro requested available rfl
    have short := final.short requested available rfl
    exact ⟨_, .head _, ⟨requested, available, rfl⟩, Nat.le_of_not_lt short⟩
  | longer limit window m result m' run cut ih =>
    rw [parseWithin_of_cut run cut]
    exact ih.cons _
  | shorter limit window m requested available m' fits run long ih =>
    rw [parseWithin_of_overflow run long]
    exact ih.cons _

/-- Each attempt uses up some of what the window may still grow and shrink. -/
theorem length_attempts_le (e : Engine σ) (rest : Text) (m : Machine σ)
    (settled : window.Settled limit) :
    let whole := limit.getD (Text.byteLength rest)
    (e.parseWithin rest limit window m).attempts.length ≤
      2 * whole - min window.size whole + 1 := by
  induction limit, window, m using parseWithin_induct e rest with
  | last limit window m outcome m' run final =>
    rw [parseWithin_of_final run final]
    exact Nat.le_add_left _ _
  | longer limit window m result m' run cut further =>
    rw [parseWithin_of_cut run cut]
    obtain rfl := settled.eq_none_of_canGrow cut.2.1
    have inside := Text.lt_byteLength_of_drop_ne_nil cut.2.2
    have few := further (Window.settled_none _)
    have large := window.floor_le
    have twice : window.double.size = 2 * window.size := rfl
    rw [Window.within] at inside
    simp only [List.length_cons, Option.getD_none] at few ⊢
    omega
  | shorter limit window m requested available m' fits run long further =>
    rw [parseWithin_of_overflow run long]
    have few := further (settled_cap settled fits)
    have half := settled_cap settled fits _ rfl
    have below := Text.byteLength_takeBytes_le (window.within limit) rest
    have part := Text.byteLength_takeBytes_le_byteLength (window.within limit) rest
    rw [settled.within] at below
    simp only [half, Option.getD_some, List.length_cons] at few ⊢
    cases limit with
    | none =>
      rw [Option.getD_none]
      simp only [shown, settled.within] at few part long fits ⊢
      omega
    | some l =>
      rw [Option.getD_some]
      have size := settled l rfl
      simp only [shown, settled.within] at few part long fits ⊢
      omega

theorem inOrder_parseWindowed (more : rest ≠ []) (window : Window) (m : Machine σ) :
    let w := e.parseWindowed rest window m
    InOrder e rest m w.attempts w.outcome w.machine := by
  have settled := Window.settled_none window
  have calls := calls_parseWithin e rest none window m
  have tried := tried_parseWithin (e := e) more m settled
  have few := length_attempts_le e rest m settled
  obtain ⟨⟨a, last, same⟩, overflow⟩ := reported_parseWithin e rest none window m
  have orderly := tried.orderly rfl
  refine ⟨calls, tried.positive, orderly, ?_, ⟨a, last, same⟩, ?_, overflow⟩
  · have positive := Text.byteLength_pos more
    have large := window.floor_le
    refine Nat.le_trans few ?_
    rw [Option.getD_none]
    omega
  · intro result answer needs
    rcases orderly.whole_or_overflow (fun a => calls.begins) last (same.trans answer) needs with
      whole | overflowed
    · exact .inl ⟨a, last, whole⟩
    · exact .inr overflowed

end

theorem inOrder_of_parseWindowed {σ : Type} {e : Engine σ} {rest : Text} (more : rest ≠ [])
    {window window' : Window} {m m' : Machine σ} {attempts : List Attempt}
    {outcome : Except EngineError ParseResult}
    (run : e.parseWindowed rest window m = ⟨attempts, outcome, window', m'⟩) :
    InOrder e rest m attempts outcome m' := by
  have tried := inOrder_parseWindowed (e := e) more window m
  rw [run] at tried
  exact tried

end Engine

section

variable {σ : Type} {e : Engine σ} {text rest : Text} {stop offset : Nat} {cursor : Position}
  {m m' : Machine σ}

theorem Scan.heads_cons (s : Scan σ) (step : Step) :
    ({ s with steps := step :: s.steps } : Scan σ).heads = (step.offset, step.cursor) :: s.heads :=
  rfl

theorem Scan.InOrder.nil {stopped : Stop} (left : Text.slice? text offset stop = some rest)
    (course : Course e text stop m [] offset stopped m') :
    (Scan.mk [] stopped offset cursor m').InOrder e text offset stop m := by
  constructor
  · intro head member
    rw [List.mem_singleton.1 member]
  · exact List.pairwise_singleton _ _
  · have ends := Text.le_of_slice? left
    dsimp only
    omega
  · exact Nat.le_refl _
  · exact course

theorem Scan.InOrder.cons {s : Scan σ} {source : Text} {result : ParseResult}
    {attempts : List Attempt} (h : s.InOrder e text (offset + Text.byteLength source) stop m')
    (something : source ≠ []) (left : Text.slice? text offset stop = some rest)
    (tried : SchemaHighlighter.InOrder e rest m attempts (.ok result) m') :
    ({ s with steps := ⟨offset, cursor, source, result, attempts⟩ :: s.steps } : Scan σ).InOrder
      e text offset stop m := by
  have positive := Text.byteLength_pos something
  constructor
  · intro head member
    rw [Scan.heads_cons] at member
    rcases List.mem_cons.1 member with rfl | later
    · exact Nat.le_refl _
    · have since := h.since head later
      omega
  · rw [Scan.heads_cons, List.map_cons]
    refine List.pairwise_cons.2 ⟨?_, h.forward⟩
    intro later member
    obtain ⟨head, stands, rfl⟩ := List.mem_map.1 member
    have since := h.since head stands
    dsimp only
    omega
  · exact h.inside
  · have few := h.few
    rw [List.length_cons]
    dsimp only
    omega
  · exact .step left tried h.course

namespace Engine

theorem inOrder_scanFrom (poll : Machine σ → Bool) (window : Window)
    (left : Text.slice? text offset stop = some rest) :
    (e.scanFrom poll window offset cursor rest m).InOrder e text offset stop m := by
  induction window, offset, cursor, rest, m using scanFrom_induct e poll with
  | nil window offset cursor m =>
    rw [scanFrom_nil]
    exact .nil left (.endOfRange m offset)
  | cancelled window offset cursor rest m more cancelled =>
    rw [scanFrom_of_cancelled more cancelled]
    exact .nil left (.cancelled m offset)
  | halted window offset cursor rest m attempts outcome window' m' stop more going run halts =>
    rw [scanFrom_of_halts more going run halts]
    have tried := inOrder_of_parseWindowed more run
    apply Scan.InOrder.nil left
    cases halts with
    | failed error => exact .ended left rfl tried
    | terminal => exact .ended left ⟨_, rfl, rfl⟩ tried
    | noProgress => exact .ended left ⟨_, rfl⟩ tried
  | step window offset cursor rest m attempts result window' m' more going run resumable
      something ih =>
    rw [scanFrom_of_step more going run resumable something]
    have begins := Text.takeBytes_isPrefix result.consumed rest
    have tried := inOrder_of_parseWindowed more run
    exact (ih (Text.slice?_drop left begins)).cons something left tried

end Engine

end

namespace Engine

variable {σ : Type}

/-- Every scan comes to an end, and so do the attempts at each of its statements: they grow up
to the first overflow and shrink from there on, whatever the engine answers. -/
theorem scan_retries_in_order (e : Engine σ) :
    (∀ rest window m, rest ≠ [] →
      let w := e.parseWindowed rest window m
      InOrder e rest m w.attempts w.outcome w.machine) ∧
    ∀ poll text range m,
      let stop := Text.offset text range.stop
      let start := min (Text.offset text range.start) stop
      (e.scan poll text range m).InOrder e text start stop m := by
  constructor
  · intro rest window m more
    exact inOrder_parseWindowed more window m
  · intro poll text range m stop start
    have left := slice?_range text range
    unfold scan
    split
    · exact .nil left (.endOfRange m start)
    · exact inOrder_scanFrom poll .initial left

/-- A window that grows, overflows with all of the text, and is cut back to half of it. -/
theorem scan_retries_in_order_of_overflow :
    let m := Linear.machine 160 160 { entries := [{ longest := some 64, shortest := some 41 }] }
    let w := Playback.engine.parseWindowed (List.replicate 65 'a') ⟨40, by decide⟩ m
    w.attempts.map Attempt.length = [40, 65, 32] ∧
      InOrder Playback.engine (List.replicate 65 'a') m w.attempts w.outcome w.machine :=
  ⟨by decide +kernel, (scan_retries_in_order Playback.engine).1 _ _ _ (by decide)⟩

end Engine

end SchemaHighlighter
