import SchemaHighlighter.Proofs.Engine.Protocol
import SchemaHighlighter.Proofs.Engine.Release

/-! # The memory at a call

What the memory holds at the moment when the entry point of an engine is called: the input with a
zero byte after it and two cleared records, apart in the free part of the stack, and all else as
it was. Without the room for them the entry point is not called at all. -/
namespace SchemaHighlighter

namespace Scratch

variable {size room n : Nat} {s : Scratch}

theorem available_push (bounds : s.InBounds size room) (fits : s.FitsNext n) :
    alignUp n + (s.push n).available = s.available := by
  have enough := (fitsNext_iff bounds).1 fits
  have above := bounds.limit_le
  have next : (s.push n).available = s.pointer - alignUp n - s.limit := by
    rw [available, push, place_eq bounds fits]
  rw [next]
  rw [available] at enough ⊢
  omega

/-- What allocations of these sizes take up one after another. -/
def roomFor : List Nat → Nat
  | [] => 0
  | n :: rest => alignUp n + roomFor rest

/-- Allocations fit one after another when all that they take up does. -/
theorem holds_iff (bounds : s.InBounds size room) (sizes : List Nat) :
    s.Holds sizes ↔ roomFor sizes ≤ s.available := by
  induction sizes generalizing s with
  | nil => exact iff_of_true trivial (Nat.zero_le _)
  | cons n rest ih =>
    rw [Holds, roomFor]
    by_cases fits : s.FitsNext n
    · have left := available_push bounds fits
      rw [ih (bounds.push fits), and_iff_right fits]
      omega
    · have short := mt (fitsNext_iff bounds).2 fits
      refine iff_of_false (fun holds => fits holds.1) ?_
      omega

theorem holds_callSizes_iff (bounds : s.InBounds size room) (length : Nat) :
    s.Holds (callSizes length) ↔ alignUp (length + 1) + 80 ≤ s.available := by
  have records : roomFor (callSizes length) = alignUp (length + 1) + 80 := rfl
  rw [holds_iff bounds, records]

end Scratch

/-- What the entry point of an engine finds that is called with a text, on a stack `s` in a memory
`m`. -/
structure Engine.LaidOut (text : Text) (s : Scratch) (m : Memory) (call : ParseCall)
    (seen : Memory) : Prop extends call.Prepared (Text.encode text) seen where
  textLength : call.length = Text.byteLength text
  inside : ∀ r ∈ call.regions, r.Within s.limit s.pointer
  size : seen.size = m.size
  outside : ∀ a, (∀ r ∈ call.regions, ¬ r.Covers a) → seen.byteAt a = m.byteAt a

namespace Memory

theorem byteAt_laidOut {call : ParseCall} {m : Memory} {input : List UInt8} {a : Nat}
    (length : call.length = input.length) (outside : ∀ r ∈ call.regions, ¬ r.Covers a) :
    (m.laidOut call input).byteAt a = m.byteAt a := by
  have inputs := Region.not_covers_iff.1 (outside call.inputRegion (.head _))
  have status := Region.not_covers_iff.1 (outside call.statusRegion (.tail _ (.head _)))
  have statement :=
    Region.not_covers_iff.1 (outside call.statementRegion (.tail _ (.tail _ (.head _))))
  rw [laidOut_eq m call length, byteAt_store_of_outside, byteAt_store_of_outside,
    byteAt_store_of_outside]
  · rw [List.length_append, List.length_singleton, ← length]
    exact inputs
  · rw [List.length_replicate]
    exact status
  · rw [List.length_replicate]
    exact statement

end Memory

/-- The call of an event, and what was seen at its moment. -/
def Event.call? {β : Type} : Event β → Option (ParseCall × β)
  | .called call seen _ => some (call, seen)
  | .saved | .allocated .. | .restored _ => none

namespace Engine

variable {σ τ : Type} {text : Text}

/-- The calls of the entry point that parsing one statement makes, each with the memory that it
finds. -/
def calls (e : Engine σ) (text : Text) (m : Machine σ) : List (ParseCall × Memory) :=
  let recorded := (e.recording fun _ memory => memory).parseStatement text (Recorded.start m)
  recorded.2.control.events.reverse.filterMap Event.call?

theorem call?_of_isAllocation {β : Type} {event : Event β} (h : event.IsAllocation) :
    event.call? = none := by
  cases event with
  | allocated => rfl
  | saved | restored | called => cases h

theorem calls_eq {e : Engine σ} {m : Machine σ} (short : Text.byteLength text < 0xFFFFFFFF) :
    ∃ asked, e.calls text m = asked.reverse.filterMap Event.call? ∧
      e.Asked (fun _ memory => memory) text (e.save m).2 asked := by
  obtain ⟨asked, recorded, kinds⟩ :=
    parseStatement_recording e (fun _ memory => memory) m short []
  refine ⟨asked, ?_, kinds⟩
  have events : (((e.recording fun _ memory => memory).parseStatement text
      (Recorded.start m)).2.control.events) = .restored (e.save m).1 :: asked ++ [.saved] :=
    congrArg (fun run => run.2.control.events) recorded
  simp only [calls, events, List.reverse_append, List.reverse_cons, List.filterMap_append,
    List.filterMap_cons, List.filterMap_nil, List.reverse_nil, List.nil_append, List.append_nil,
    Event.call?]

theorem calls_of_refused {e : Engine σ} {m m' : Machine σ} {error : EngineError}
    (short : Text.byteLength text < 0xFFFFFFFF)
    (refused : e.marshal text (e.save m).2 = (.error error, m')) : e.calls text m = [] := by
  obtain ⟨asked, same, kinds⟩ := calls_eq short
  rw [same]
  cases kinds with
  | refused _ _ only =>
    rw [List.filterMap_eq_nil_iff]
    intro event member
    exact call?_of_isAllocation (only event (List.mem_reverse.1 member))
  | called laid =>
    rw [marshal_of_marshalled laid] at refused
    cases refused

theorem calls_of_marshal {e : Engine σ} {m ready : Machine σ} {call : ParseCall}
    (short : Text.byteLength text < 0xFFFFFFFF)
    (laid : e.marshal text (e.save m).2 = (.ok call, ready)) :
    e.calls text m = [(call, ready.memory)] := by
  obtain ⟨asked, same, kinds⟩ := calls_eq short
  rw [same]
  cases kinds with
  | refused refused =>
    rw [laid] at refused
    cases refused
  | called marshalled =>
    rw [marshal_of_marshalled marshalled] at laid
    cases laid
    rfl

section

variable {size room : Nat} {m : Machine (Linear τ)}

theorem laidOut_ready (addressed : Linear.Addressed m)
    (room : m.control.scratch.Holds (Scratch.callSizes (Text.byteLength text))) :
    LaidOut text m.control.scratch m.memory (m.control.scratch.layout (Text.byteLength text))
      (ready text m).memory := by
  have apart := Scratch.apart_layout room
  have length : (m.control.scratch.layout (Text.byteLength text)).length =
      (Text.encode text).length := (Text.length_encode text).symm
  constructor
  case toPrepared => exact prepared_ready addressed room
  case textLength => rfl
  case inside =>
    obtain ⟨room₁, room₂, room₃, -⟩ := room
    have input := Scratch.place_le m.control.scratch (Text.byteLength text + 1)
    have status := Nat.le_trans
      (Scratch.place_le (m.control.scratch.push (Text.byteLength text + 1)) Status.recordSize) input
    intro r member
    rcases ParseCall.mem_regions.1 member with rfl | rfl | rfl
    · exact ⟨room₁.2, apart.input⟩
    · exact ⟨room₂.2, Nat.le_trans apart.status input⟩
    · exact ⟨room₃.2, Nat.le_trans apart.statement status⟩
  case size => exact Memory.size_laidOut ..
  case outside => exact fun _ outside => Memory.byteAt_laidOut length outside

/-- The entry point is called exactly when the input with its terminator and the two records fit
on the stack. It finds them laid out, and all else in the memory as it was. Without the room the
stack overflows, and the free part of it alone has been written. -/
theorem parseStatement_lays_out (parse : ParseCall → Action (Linear τ) Int)
    (whole : m.memory.size = size) (small : size < 0x100000000)
    (reachable : Scratch.Reachable size room m.control.scratch)
    (short : Text.byteLength text < 0xFFFFFFFF) :
    let e := linear parse
    let s := m.control.scratch
    let needed := alignUp (Text.byteLength text + 1) + 80
    (e.calls text m = [] ↔ s.pointer - s.limit < needed) ∧
      (s.pointer - s.limit < needed → ∃ requested available memory,
        e.parseStatement text m =
          (.error (.stackOverflow requested available), ⟨memory, m.control⟩) ∧
        memory.SameOutside s.limit s.pointer m.memory) ∧
      (needed ≤ s.pointer - s.limit → ∃ call seen, e.calls text m = [(call, seen)] ∧
        LaidOut text s m.memory call seen) := by
  intro e s needed
  have bounds := Scratch.inBounds_of_reachable reachable
  have addressed : Linear.Addressed m := ⟨by omega, by rw [whole]; exact bounds.pointer_le_size⟩
  have iff : s.Holds (Scratch.callSizes (Text.byteLength text)) ↔ needed ≤ s.pointer - s.limit :=
    Scratch.holds_callSizes_iff bounds _
  by_cases room : s.Holds (Scratch.callSizes (Text.byteLength text))
  · have enough := iff.1 room
    have called : e.calls text m = [_] := calls_of_marshal short (marshal_of_holds addressed room)
    refine ⟨iff_of_false ?_ (by omega), fun lacking => absurd lacking (by omega), fun _ => ?_⟩
    · rw [called]
      exact nofun
    · exact ⟨_, _, called, laidOut_ready addressed room⟩
  · have lacking : s.pointer - s.limit < needed := Nat.lt_of_not_le (mt iff.2 room)
    obtain ⟨_, _, refused, -⟩ := marshal_of_not_holds parse addressed room
    obtain ⟨requested, available, overflows⟩ := overflow_of_not_holds parse room
    obtain ⟨memory, run, same⟩ := overflows m addressed rfl
    have none : e.calls text m = [] := calls_of_refused short refused
    refine ⟨iff_of_true none lacking, fun _ => ?_, fun enough => absurd lacking (by omega)⟩
    exact ⟨requested, available, memory, run, same⟩

theorem parseStatement_lays_out_of_package :
    let e : Engine (Linear Unit) := linear fun _ m => (.ok 0, m)
    let m : Machine (Linear Unit) :=
      ⟨Memory.filled 203 0xAA, { scratch := ⟨176, 42⟩, own := () }⟩
    let text := "package".toList
    let long := List.replicate 48 'a'
    m.memory.size = 203 ∧ Scratch.Reachable 203 150 m.control.scratch ∧
      (Text.byteLength text < 0xFFFFFFFF ∧ ∃ call seen, e.calls text m = [(call, seen)] ∧
        LaidOut text m.control.scratch m.memory call seen) ∧
      Text.byteLength long < 0xFFFFFFFF ∧ e.calls long m = [] := by
  intro e m text long
  have whole : m.memory.size = 203 := Array.size_replicate
  -- the top is at 192, and five bytes have been taken from it
  have reachable : Scratch.Reachable 203 150 m.control.scratch := .alloc 5 .atTop
  have length : Text.byteLength text = 7 := by decide +kernel
  have length' : Text.byteLength long = 48 := by decide +kernel
  have short : Text.byteLength text < 0xFFFFFFFF := by omega
  have short' : Text.byteLength long < 0xFFFFFFFF := by omega
  obtain ⟨-, -, laid⟩ :=
    parseStatement_lays_out (fun _ m => (.ok 0, m)) whole (by decide) reachable short
  obtain ⟨refused, -, -⟩ :=
    parseStatement_lays_out (fun _ m => (.ok 0, m)) whole (by decide) reachable short'
  rw [length] at laid
  rw [length'] at refused
  exact ⟨whole, reachable, ⟨short, laid (by decide)⟩, short', refused.2 (by decide)⟩

end

end Engine

end SchemaHighlighter
