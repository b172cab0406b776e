import SchemaHighlighter.Proofs.Engine.Stack

/-! # What a call finds

At the moment of a call the input lies in memory with a zero byte after it, and two cleared records
lie beside it. The three regions are apart and aligned. This is all that an entry point can rely
on, and every call of a linear engine with room for it is prepared in this way. -/
namespace SchemaHighlighter

namespace ParseCall

def inputRegion (call : ParseCall) : Region := ⟨call.input, call.length + 1⟩

def statusRegion (call : ParseCall) : Region := ⟨call.status, Status.recordSize⟩

def statementRegion (call : ParseCall) : Region := ⟨call.statement, Statement.recordSize⟩

/-- The input with its terminator, and the two records. -/
def regions (call : ParseCall) : List Region :=
  [call.inputRegion, call.statusRegion, call.statementRegion]

theorem mem_regions {call : ParseCall} {r : Region} :
    r ∈ call.regions ↔ r = call.inputRegion ∨ r = call.statusRegion ∨ r = call.statementRegion := by
  simp only [regions, List.mem_cons, List.not_mem_nil, or_false]

/-- A memory in which everything is laid out for a call with this input. -/
structure Prepared (call : ParseCall) (input : List UInt8) (m : Memory) : Prop where
  start : call.start = 0
  length : call.length = input.length
  aligned : ∀ r ∈ call.regions, r.start % 16 = 0
  apart : call.regions.Pairwise Region.Disjoint
  fits : ∀ r ∈ call.regions, m.Fits r.start r.length
  input : m.slice call.input (call.length + 1) = input ++ [0]
  status : m.slice call.status Status.recordSize = List.replicate Status.recordSize 0
  statement : m.slice call.statement Statement.recordSize = List.replicate Statement.recordSize 0

namespace Prepared

variable {call : ParseCall} {input : List UInt8} {m : Memory}

theorem fits_input (h : call.Prepared input m) : m.Fits call.input (call.length + 1) :=
  h.fits call.inputRegion (.head _)

theorem fits_status (h : call.Prepared input m) : m.Fits call.status Status.recordSize :=
  h.fits call.statusRegion (.tail _ (.head _))

theorem fits_statement (h : call.Prepared input m) : m.Fits call.statement Statement.recordSize :=
  h.fits call.statementRegion (.tail _ (.tail _ (.head _)))

theorem aligned_status (h : call.Prepared input m) : call.status % 4 = 0 := by
  have aligned : call.status % 16 = 0 := h.aligned call.statusRegion (.tail _ (.head _))
  omega

theorem aligned_statement (h : call.Prepared input m) : call.statement % 4 = 0 := by
  have aligned : call.statement % 16 = 0 :=
    h.aligned call.statementRegion (.tail _ (.tail _ (.head _)))
  omega

theorem input_status (h : call.Prepared input m) :
    call.input + (call.length + 1) ≤ call.status ∨
      call.status + Status.recordSize ≤ call.input :=
  (List.pairwise_cons.1 h.apart).1 call.statusRegion (.head _)

theorem input_statement (h : call.Prepared input m) :
    call.input + (call.length + 1) ≤ call.statement ∨
      call.statement + Statement.recordSize ≤ call.input :=
  (List.pairwise_cons.1 h.apart).1 call.statementRegion (.tail _ (.head _))

theorem status_statement (h : call.Prepared input m) :
    call.status + Status.recordSize ≤ call.statement ∨
      call.statement + Statement.recordSize ≤ call.status := by
  have records : call.statusRegion.Disjoint call.statementRegion :=
    List.pairwise_pair.1 (List.pairwise_cons.1 h.apart).2
  exact records

theorem slice_input (h : call.Prepared input m) : m.slice call.input call.length = input := by
  have inside : 0 + call.length ≤ call.length + 1 := by omega
  have part := Memory.take_drop_slice h.fits_input inside
  rw [h.input, List.drop_zero, h.length, List.take_left, Nat.add_zero] at part
  rw [h.length]
  exact part.symm

end Prepared

end ParseCall

namespace Memory

variable {s : Scratch} {call : ParseCall} {m : Memory} {input : List UInt8}

/-- The input and its terminator are one stretch of bytes. -/
theorem laidOut_eq (m : Memory) (call : ParseCall) (length : call.length = input.length) :
    m.laidOut call input =
      ((m.store call.input (input ++ [0])).store call.status
        (List.replicate Status.recordSize 0)).store call.statement
          (List.replicate Statement.recordSize 0) := by
  rw [laidOut, store_append, length]

theorem slice_input_laidOut (apart : s.Apart call) (within : s.pointer ≤ m.size)
    (length : call.length = input.length) :
    (m.laidOut call input).slice call.input (call.length + 1) = input ++ [0] := by
  have second := apart.status
  have third := apart.statement
  have whole : (input ++ [0]).length = call.length + 1 := by
    rw [List.length_append, length, List.length_singleton]
  have fits : m.Fits call.input (call.length + 1) := (apart.fits within).1
  rw [laidOut_eq m call length, slice_store_of_disjoint, slice_store_of_disjoint, ← whole]
  · rw [← whole] at fits
    exact slice_store_self fits
  · exact fits_store_iff.2 fits
  · exact .inr (by rw [List.length_replicate]; omega)
  · exact fits_store_iff.2 (fits_store_iff.2 fits)
  · exact .inr (by rw [List.length_replicate]; omega)

theorem slice_status_laidOut (apart : s.Apart call) (within : s.pointer ≤ m.size) :
    (m.laidOut call input).slice call.status Status.recordSize =
      List.replicate Status.recordSize 0 := by
  have third := apart.statement
  have fits := (apart.fits within).2.1
  rw [laidOut, slice_store_of_disjoint, slice_store_zeros]
  · exact fits_store_iff.2 (fits_store_iff.2 fits)
  · exact fits_store_iff.2 (fits_store_iff.2 (fits_store_iff.2 fits))
  · exact .inr (by rw [List.length_replicate]; omega)

theorem slice_statement_laidOut (apart : s.Apart call) (within : s.pointer ≤ m.size) :
    (m.laidOut call input).slice call.statement Statement.recordSize =
      List.replicate Statement.recordSize 0 := by
  have fits := (apart.fits within).2.2
  exact slice_store_zeros (fits_store_iff.2 (fits_store_iff.2 (fits_store_iff.2 fits)))

end Memory

namespace Engine

variable {τ : Type} {text : Text} {m : Machine (Linear τ)}

theorem size_ready (text : Text) (m : Machine (Linear τ)) :
    (ready text m).memory.size = m.memory.size :=
  Memory.size_laidOut ..

theorem addressed_ready (text : Text) (addressed : Linear.Addressed m) :
    Linear.Addressed (ready text m) := by
  have below : (ready text m).control.scratch.pointer ≤ m.control.scratch.pointer :=
    Nat.le_trans (Scratch.place_le ..) (Nat.le_trans (Scratch.place_le ..) (Scratch.place_le ..))
  constructor
  · rw [size_ready]
    exact addressed.short
  · rw [size_ready]
    exact Nat.le_trans below addressed.within

theorem sound_ready (text : Text) (sound : Linear.Sound m) : Linear.Sound (ready text m) := by
  refine ⟨?_, (addressed_ready text sound.addressed).within⟩
  rw [size_ready]
  exact sound.small

/-- With room for its three allocations a call is prepared, whatever the memory held before. -/
theorem prepared_ready (addressed : Linear.Addressed m)
    (room : m.control.scratch.Holds (Scratch.callSizes (Text.byteLength text))) :
    (m.control.scratch.layout (Text.byteLength text)).Prepared (Text.encode text)
      (ready text m).memory := by
  have apart := Scratch.apart_layout room
  have second := apart.status
  have third := apart.statement
  have within := addressed.within
  have length : (m.control.scratch.layout (Text.byteLength text)).length =
      (Text.encode text).length := (Text.length_encode text).symm
  constructor
  case start => rfl
  case length => exact length
  case aligned =>
    intro r member
    rcases ParseCall.mem_regions.1 member with rfl | rfl | rfl
    · exact Scratch.place_mod ..
    · exact Scratch.place_mod ..
    · exact Scratch.place_mod ..
  case apart =>
    refine .cons ?_ (List.pairwise_pair.2 (.inr third))
    intro r member
    rcases List.mem_cons.1 member with rfl | member
    · exact .inr second
    · rw [List.mem_singleton.1 member]
      exact .inr (Nat.le_trans third (Nat.le_of_add_right_le second))
  case fits =>
    obtain ⟨input, status, statement⟩ := apart.fits within
    intro r member
    rw [Memory.fits_iff, size_ready]
    rcases ParseCall.mem_regions.1 member with rfl | rfl | rfl
    · exact input
    · exact status
    · exact statement
  case input => exact Memory.slice_input_laidOut apart within length
  case status => exact Memory.slice_status_laidOut apart within
  case statement => exact Memory.slice_statement_laidOut apart within

end Engine

end SchemaHighlighter
