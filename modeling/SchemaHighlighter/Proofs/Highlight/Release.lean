import SchemaHighlighter.Engine.Playback
import SchemaHighlighter.Proofs.Engine.Release
import SchemaHighlighter.Proofs.Highlight.Cases

/-! # A scan leaves the scratch stack as it found it

Every attempt at a statement has a scope of its own on the scratch stack, and no attempt is made
within the scope of another. However often a statement is tried and however the scan ends, the
scopes are all closed and the pointer is back. -/
namespace SchemaHighlighter

variable {β σ : Type}

namespace Event

def isSaved : Event β → Bool
  | .saved => true
  | .allocated .. | .restored _ | .called .. => false

def isRestored : Event β → Bool
  | .restored _ => true
  | .saved | .allocated .. | .called .. => false

/-- The event neither opens a scope nor closes one. -/
def IsInside : Event β → Prop
  | .allocated .. | .called .. => True
  | .saved | .restored _ => False

end Event

/-- The record of `n` scopes one after another, on top of an earlier record. Every scope puts
back the same pointer. -/
inductive Released (marker : Nat) (earlier : List (Event β)) : Nat → List (Event β) → Prop
  | none : Released marker earlier 0 earlier
  | scope {n : Nat} {events asked : List (Event β)} (before : Released marker earlier n events)
    (inside : ∀ event ∈ asked, event.IsInside) :
    Released marker earlier (n + 1) (.restored marker :: asked ++ .saved :: events)

namespace Released

variable {marker n k : Nat} {earlier between events : List (Event β)}

theorem trans (first : Released marker earlier n between)
    (second : Released marker between k events) : Released marker earlier (n + k) events := by
  induction second with
  | none => exact first
  | scope before inside ih => exact .scope ih inside

theorem cons (first : Released marker earlier 1 between)
    (others : Released marker between n events) : Released marker earlier (n + 1) events := by
  rw [Nat.add_comm]
  exact first.trans others

/-- What happens once at the bounds of a scope and never within happens `n` times. -/
theorem countP {p : Event β → Bool} (once : List.countP p [.restored marker, .saved] = 1)
    (never : ∀ event : Event β, event.IsInside → p event = false)
    (released : Released marker earlier n events) :
    events.countP p = earlier.countP p + n := by
  induction released with
  | none => rfl
  | @scope n events asked before inside ih =>
    have none : asked.countP p = 0 := by
      rw [List.countP_eq_zero]
      intro event member
      rw [never event (inside event member)]
      exact Bool.false_ne_true
    simp only [List.countP_cons, List.countP_nil] at once
    simp only [List.cons_append, List.countP_cons, List.countP_append, none, ih]
    omega

theorem saves (released : Released marker earlier n events) :
    events.countP Event.isSaved = earlier.countP Event.isSaved + n := by
  refine released.countP rfl ?_
  intro event inside
  cases event with
  | allocated | called => rfl
  | saved | restored => cases inside

theorem restores (released : Released marker earlier n events) :
    events.countP Event.isRestored = earlier.countP Event.isRestored + n := by
  refine released.countP rfl ?_
  intro event inside
  cases event with
  | allocated | called => rfl
  | saved | restored => cases inside

end Released

/-- The question whether to stop, put to the machine inside. -/
def Recorded.ask (poll : Machine σ → Bool) (m : Machine (Recorded β σ)) : Bool :=
  poll (unrecorded m)

/-- The attempts with a record kept of them. -/
def Windowed.holding (events : List (Event β)) (w : Windowed σ) : Windowed (Recorded β σ) :=
  ⟨w.attempts, w.outcome, w.window, Recorded.holding events w.machine⟩

/-- The scan with a record kept of it. -/
def Scan.holding (events : List (Event β)) (s : Scan σ) : Scan (Recorded β σ) :=
  ⟨s.steps, s.stop, s.offset, s.cursor, Recorded.holding events s.machine⟩

namespace Engine

variable {e : Engine σ} {probe : ParseCall → Memory → β} {pointer : Machine σ → Nat}
  {text rest : Text} {m m' : Machine σ}

theorem Asked.inside {asked : List (Event β)} (h : e.Asked probe text m asked) :
    ∀ event ∈ asked, event.IsInside := by
  cases h with
  | refused failed few only =>
    intro event member
    have allocation := only event member
    cases event with
    | allocated => trivial
    | saved | restored | called => cases allocation
  | called laid => simp [ParseCall.allocations, Event.IsInside]

theorem released_parseStatement (probe : ParseCall → Memory → β) (keeps : e.Keeps pointer)
    (short : Text.byteLength text < 0xFFFFFFFF) {outcome : Except EngineError ParseResult}
    (run : e.parseStatement text m = (outcome, m')) (earlier : List (Event β)) :
    pointer m' = pointer m ∧
      ∃ events, (e.recording probe).parseStatement text (Recorded.holding earlier m) =
          (outcome, Recorded.holding events m') ∧
        Released (pointer m) earlier 1 events := by
  obtain ⟨asked, recorded, within⟩ :=
    parseStatement_recording e probe m short earlier
  have back := pointer_parseStatement keeps text m
  rw [run] at back recorded
  rw [keeps.save] at recorded
  exact ⟨back, _, recorded, .scope .none within.inside⟩

theorem released_parseWithin (probe : ParseCall → Memory → β) (keeps : e.Keeps pointer)
    (short : Text.byteLength rest < 0xFFFFFFFF) (limit : Option Nat) (window : Window)
    (m : Machine σ) :
    let w := e.parseWithin rest limit window m
    pointer w.machine = pointer m ∧
      ∀ earlier, ∃ events,
        (e.recording probe).parseWithin rest limit window (Recorded.holding earlier m) =
          w.holding events ∧
        Released (pointer m) earlier w.attempts.length events := by
  have shown_short : ∀ limit window, Text.byteLength (shown rest limit window) < 0xFFFFFFFF := by
    intro limit window
    exact Nat.lt_of_le_of_lt (Text.byteLength_takeBytes_le_byteLength _ rest) short
  induction limit, window, m using parseWithin_induct e rest with
  | last limit window m outcome m' run final =>
    have attempt := released_parseStatement probe keeps (shown_short limit window) run
    rw [parseWithin_of_final run final]
    refine ⟨(attempt []).1, ?_⟩
    intro earlier
    obtain ⟨-, events, recorded, released⟩ := attempt earlier
    exact ⟨events, parseWithin_of_final recorded final, released⟩
  | longer limit window m result m' run cut ih =>
    have attempt := released_parseStatement probe keeps (shown_short limit window) run
    rw [parseWithin_of_cut run cut]
    refine ⟨ih.1.trans (attempt []).1, ?_⟩
    intro earlier
    -- the other attempts find the pointer where this one did
    obtain ⟨back, between, recorded, first⟩ := attempt earlier
    obtain ⟨events, recorded', others⟩ := ih.2 between
    rw [back] at others
    refine ⟨events, ?_, first.cons others⟩
    rw [parseWithin_of_cut recorded cut, recorded']
    rfl
  | shorter limit window m requested available m' fits run long ih =>
    have attempt := released_parseStatement probe keeps (shown_short limit window) run
    rw [parseWithin_of_overflow run long]
    refine ⟨ih.1.trans (attempt []).1, ?_⟩
    intro earlier
    obtain ⟨back, between, recorded, first⟩ := attempt earlier
    obtain ⟨events, recorded', others⟩ := ih.2 between
    rw [back] at others
    refine ⟨events, ?_, first.cons others⟩
    rw [parseWithin_of_overflow recorded long]
    simp only [recorded']
    rfl

theorem released_of_parseWindowed (probe : ParseCall → Memory → β) (keeps : e.Keeps pointer)
    (short : Text.byteLength rest < 0xFFFFFFFF) {window window' : Window}
    {attempts : List Attempt} {outcome : Except EngineError ParseResult}
    (run : e.parseWindowed rest window m = ⟨attempts, outcome, window', m'⟩)
    (earlier : List (Event β)) :
    pointer m' = pointer m ∧
      ∃ events, (e.recording probe).parseWindowed rest window (Recorded.holding earlier m) =
          ⟨attempts, outcome, window', Recorded.holding events m'⟩ ∧
        Released (pointer m) earlier attempts.length events := by
  have released := released_parseWithin probe keeps short none window m
  rw [parseWindowed] at run
  rw [run] at released
  exact ⟨released.1, released.2 earlier⟩

/-- A scan is one scope after another, as many as there are attempts. -/
theorem released_scanFrom (probe : ParseCall → Memory → β) (keeps : e.Keeps pointer)
    (short : Text.byteLength rest < 0xFFFFFFFF) (poll : Machine σ → Bool) (window : Window)
    (offset : Nat) (cursor : Position) (m : Machine σ) (earlier : List (Event β)) :
    let s := e.scanFrom poll window offset cursor rest m
    pointer s.machine = pointer m ∧
      ∃ events, (e.recording probe).scanFrom (Recorded.ask poll) window offset cursor rest
          (Recorded.holding earlier m) = s.holding events ∧
        Released (pointer m) earlier s.attempts.length events := by
  induction window, offset, cursor, rest, m using scanFrom_induct e poll generalizing earlier with
  | nil window offset cursor m =>
    rw [scanFrom_nil, scanFrom_nil]
    exact ⟨rfl, earlier, rfl, .none⟩
  | cancelled window offset cursor rest m more cancelled =>
    have cancelled' : Recorded.ask poll (Recorded.holding earlier m) = true := cancelled
    rw [scanFrom_of_cancelled more cancelled, scanFrom_of_cancelled more cancelled']
    exact ⟨rfl, earlier, rfl, .none⟩
  | halted window offset cursor rest m attempts outcome window' m' stop more going run halts =>
    have going' : Recorded.ask poll (Recorded.holding earlier m) ≠ true := going
    obtain ⟨back, events, recorded, released⟩ :=
      released_of_parseWindowed probe keeps short run earlier
    rw [scanFrom_of_halts more going run halts, scanFrom_of_halts more going' recorded halts]
    refine ⟨back, events, rfl, ?_⟩
    cases halts <;> exact released
  | step window offset cursor rest m attempts result window' m' more going run resumable
      something ih =>
    have going' : Recorded.ask poll (Recorded.holding earlier m) ≠ true := going
    obtain ⟨back, between, recorded, first⟩ :=
      released_of_parseWindowed probe keeps short run earlier
    have shorter : Text.byteLength
        (rest.drop (Text.takeBytes result.consumed rest).length) < 0xFFFFFFFF := by
      rw [← Text.dropBytes_eq_drop]
      exact Nat.lt_of_le_of_lt (Text.byteLength_dropBytes_le_byteLength _ rest) short
    obtain ⟨back', events, recorded', others⟩ := ih shorter between
    rw [back] at others
    rw [scanFrom_of_step more going run resumable something,
      scanFrom_of_step more going' recorded resumable something]
    refine ⟨back'.trans back, events, ?_, ?_⟩
    · simp only [recorded']
      rfl
    · simp only [Scan.attempts, List.flatMap_cons, List.append_assoc] at others ⊢
      rw [List.length_append]
      exact first.trans others

/-- Scratch space is released on every path. A call opens one scope, in which the entry point is
called once at most and only when everything was laid out for it, and the last that it does is to
close the scope. So a scan, however it ends, has opened and closed as many scopes as it made
attempts, and leaves the pointer where it was. -/
theorem scan_releases_scratch (keeps : e.Keeps pointer) (probe : ParseCall → Memory → β)
    (short : Text.byteLength text < 0xFFFFFFFF) (m : Machine σ) :
    (∀ earlier, ∃ asked last,
      (e.recording probe).parseStatement text (Recorded.holding earlier m) =
          ((e.parseStatement text m).1,
            Recorded.holding (.restored (pointer m) :: asked ++ .saved :: earlier)
              (e.parseStatement text m).2) ∧
        e.Asked probe text (e.save m).2 asked ∧
        (e.parseStatement text m).2 = e.restore (pointer m) last ∧
        pointer (e.parseStatement text m).2 = pointer m) ∧
    ∀ poll range,
      let s := e.scan poll text range m
      pointer s.machine = pointer m ∧
        ∃ events, (e.recording probe).scan (Recorded.ask poll) text range
            (Recorded.start m) = s.holding events ∧
          events.countP Event.isSaved = s.attempts.length ∧
          events.countP Event.isRestored = s.attempts.length := by
  constructor
  · intro earlier
    obtain ⟨asked, recorded, within⟩ :=
      parseStatement_recording e probe m short earlier
    obtain ⟨last, restored⟩ := parseStatement_eq_restore e m short
    rw [keeps.save] at recorded restored
    exact ⟨asked, last, recorded, within, restored, pointer_parseStatement keeps text m⟩
  · intro poll range
    simp only [scan]
    split
    · exact ⟨rfl, [], rfl, rfl, rfl⟩
    · have inside : Text.byteLength (Text.dropBytes (min (Text.offset text range.start)
          (Text.offset text range.stop)) (Text.takeBytes (Text.offset text range.stop) text)) <
          0xFFFFFFFF :=
        Nat.lt_of_le_of_lt (Text.byteLength_dropBytes_le_byteLength _ _)
          (Nat.lt_of_le_of_lt (Text.byteLength_takeBytes_le_byteLength _ text) short)
      obtain ⟨back, events, recorded, released⟩ :=
        released_scanFrom probe keeps inside poll .initial _ range.start m []
      refine ⟨back, events, recorded, ?_, ?_⟩
      · rw [released.saves]
        exact Nat.zero_add _
      · rw [released.restores]
        exact Nat.zero_add _

/-- An engine that takes scratch space of its own in a call and then fails. -/
theorem scan_releases_scratch_of_trap :
    let pointer := fun m : Machine (Linear Playback.State) => m.control.scratch.pointer
    let m := Linear.machine 256 256
      ({ entries := [{ alloc := some 32, failure := some (.trap "lost") }] } : Playback.State)
    let text := "enum E;".toList
    let s := Playback.engine.scan (fun _ => false) text (wholeRange text) m
    let recorded := (Playback.engine.recording fun call _ => call.length).scan
      (Recorded.ask fun _ => false) text (wholeRange text) (Recorded.start m)
    Playback.engine.Keeps pointer ∧ Text.byteLength text < 0xFFFFFFFF ∧
      s.log = [.parseFailed (.trap "lost")] ∧
      pointer s.machine = 256 ∧
      recorded.machine.control.events.countP Event.isSaved = 1 ∧
      recorded.machine.control.events.countP Event.isRestored = 1 := by
  intro pointer m text s recorded
  have keeps : Playback.engine.Keeps pointer := keeps_linear _
  have short : Text.byteLength text < 0xFFFFFFFF := by decide
  have once : s.attempts.length = 1 := by decide +kernel
  obtain ⟨back, events, same, saves, restores⟩ :=
    (scan_releases_scratch keeps (fun call _ => call.length) short m).2 (fun _ => false)
      (wholeRange text)
  have record : recorded.machine.control.events = events := by
    rw [show recorded = s.holding events from same]
    rfl
  rw [once] at saves restores
  rw [record]
  exact ⟨keeps, short, by decide +kernel, back, saves, restores⟩

end Engine

end SchemaHighlighter
