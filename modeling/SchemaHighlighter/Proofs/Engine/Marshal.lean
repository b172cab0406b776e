import SchemaHighlighter.Engine.Linear
import SchemaHighlighter.Engine.Parse
import SchemaHighlighter.Proofs.Memory.Words

/-! # The layout of a call

On a linear memory with room for the three allocations of a call, the call is laid out at
addresses that follow from the scratch stack and the length of the input alone. The input and
the two cleared records lie apart. Without the room the stack overflows, and the only lasting
effect is on memory. -/
namespace SchemaHighlighter

namespace Scratch

/-- The stack after an allocation of `n` bytes that fits. -/
def push (s : Scratch) (n : Nat) : Scratch := { s with pointer := s.place n }

def FitsNext (s : Scratch) (n : Nat) : Prop := n ≤ s.pointer ∧ s.limit ≤ s.place n

instance (s : Scratch) (n : Nat) : Decidable (s.FitsNext n) := inferInstanceAs (Decidable (_ ∧ _))

/-- Allocations of these sizes fit one after another. -/
def Holds (s : Scratch) : List Nat → Prop
  | [] => True
  | n :: rest => s.FitsNext n ∧ (s.push n).Holds rest

instance instDecidableHolds : (s : Scratch) → (sizes : List Nat) → Decidable (s.Holds sizes)
  | _, [] => isTrue trivial
  | s, n :: rest =>
    have := instDecidableHolds (s.push n) rest
    inferInstanceAs (Decidable (_ ∧ _))

/-- The first of these allocations that does not fit. -/
def refused (s : Scratch) : List Nat → Overflow
  | [] => ⟨0, s.available⟩
  | n :: rest => if s.FitsNext n then (s.push n).refused rest else ⟨n, s.available⟩

def callSizes (length : Nat) : List Nat := [length + 1, Status.recordSize, Statement.recordSize]

/-- Where a call with an input of this length is laid out. -/
def layout (s : Scratch) (length : Nat) : ParseCall where
  input := s.place (length + 1)
  length := length
  statement := ((s.push (length + 1)).push Status.recordSize).place Statement.recordSize
  status := (s.push (length + 1)).place Status.recordSize

theorem place_add_le {s : Scratch} {n : Nat} (h : s.FitsNext n) : s.place n + n ≤ s.pointer := by
  have := h.1
  rw [place, alignDown]
  omega

theorem place_le (s : Scratch) (n : Nat) : s.place n ≤ s.pointer := by
  rw [place, alignDown]
  omega

/-- The three regions of a call lie one below the other, all of them below the stack pointer. -/
structure Apart (s : Scratch) (call : ParseCall) : Prop where
  input : call.input + call.length + 1 ≤ s.pointer
  status : call.status + Status.recordSize ≤ call.input
  statement : call.statement + Statement.recordSize ≤ call.status

theorem apart_layout {s : Scratch} {length : Nat} (room : s.Holds (callSizes length)) :
    s.Apart (s.layout length) := by
  obtain ⟨first, second, third, _⟩ := room
  refine ⟨?_, place_add_le second, place_add_le third⟩
  rw [Nat.add_assoc]
  exact place_add_le first

end Scratch

theorem Scratch.Apart.fits {s : Scratch} {call : ParseCall} {m : Memory} (apart : s.Apart call)
    (within : s.pointer ≤ m.size) :
    m.Fits call.input (call.length + 1) ∧ m.Fits call.status Status.recordSize ∧
      m.Fits call.statement Statement.recordSize := by
  have first := apart.input
  have second := apart.status
  have third := apart.statement
  refine ⟨?_, ?_, ?_⟩
  · rw [Memory.fits_iff]
    omega
  · rw [Memory.fits_iff]
    omega
  · rw [Memory.fits_iff]
    omega

/-- The memory once the input, its terminator and two cleared records are laid out. -/
def Memory.laidOut (m : Memory) (call : ParseCall) (input : List UInt8) : Memory :=
  (((m.store call.input input).store (call.input + call.length) [0]).store call.status
    (List.replicate Status.recordSize 0)).store call.statement
      (List.replicate Statement.recordSize 0)

theorem Memory.size_laidOut (m : Memory) (call : ParseCall) (input : List UInt8) :
    (m.laidOut call input).size = m.size := by
  simp only [laidOut, size_store]

/-- Only bytes between `low` and `high` tell the two memories apart. -/
structure Memory.SameOutside (low high : Nat) (m' m : Memory) : Prop where
  size : m'.size = m.size
  byte : ∀ a, a < low ∨ high ≤ a → m'.byteAt a = m.byteAt a

theorem Memory.SameOutside.refl {low high : Nat} (m : Memory) : SameOutside low high m m :=
  ⟨rfl, fun _ _ => rfl⟩

theorem Memory.SameOutside.store {low high offset : Nat} {m' m : Memory} {bytes : List UInt8}
    (same : SameOutside low high m' m) (above : low ≤ offset)
    (below : offset + bytes.length ≤ high) : SameOutside low high (m'.store offset bytes) m := by
  refine ⟨(size_store ..).trans same.size, ?_⟩
  intro a outside
  rw [byteAt_store_of_outside (by omega), same.byte a outside]

namespace Linear

variable {τ : Type}

/-- A machine whose memory has signed addresses and whose stack lies in it. Allocations and the
ends of scopes keep both. -/
structure Sound (m : Machine (Linear τ)) : Prop where
  small : m.memory.size ≤ 0x80000000
  within : m.control.scratch.pointer ≤ m.memory.size

theorem sound_machine {size room : Nat} (own : τ) (small : size ≤ 0x80000000) :
    Sound (machine size room own) := by
  have whole : (machine size room own).memory.size = size := by
    simp [machine, Memory.zeros, Memory.filled, Memory.size]
  refine ⟨by omega, ?_⟩
  rw [whole]
  simp only [machine, Scratch.atTop, alignDown]
  omega

theorem Sound.of_size {m : Machine (Linear τ)} (h : Sound m) {memory : Memory} {control : Linear τ}
    (size : memory.size = m.memory.size) (scratch : control.scratch = m.control.scratch) :
    Sound ⟨memory, control⟩ := by
  constructor
  · rw [size]
    exact h.small
  · rw [size, scratch]
    exact h.within

/-- A machine whose memory has addresses of 32 bits and whose stack lies in it. -/
structure Addressed (m : Machine (Linear τ)) : Prop where
  short : m.memory.size < 0x100000000
  within : m.control.scratch.pointer ≤ m.memory.size

theorem Sound.addressed {m : Machine (Linear τ)} (h : Sound m) : Addressed m :=
  ⟨Nat.lt_of_le_of_lt h.small (by decide), h.within⟩

theorem alloc_of_fitsNext {m : Machine (Linear τ)} {n : Nat}
    (h : m.control.scratch.FitsNext n) :
    alloc n m = (.ok (m.control.scratch.place n),
      ⟨m.memory, { m.control with scratch := m.control.scratch.push n }⟩) := by
  rw [Scratch.FitsNext] at h
  simp only [alloc, Scratch.alloc, if_pos h, Scratch.push]

theorem alloc_of_not_fitsNext {m : Machine (Linear τ)} {n : Nat}
    (h : ¬ m.control.scratch.FitsNext n) :
    alloc n m = (.error (.stackOverflow n m.control.scratch.available), m) := by
  rw [Scratch.FitsNext] at h
  simp only [alloc, Scratch.alloc, if_neg h]

end Linear

namespace Action

variable {σ : Type}

theorem change_write {offset : Nat} {bytes : List UInt8} {m : Machine σ}
    (fits : m.memory.Fits offset bytes.length) :
    change (Memory.write offset bytes) m = (.ok (), ⟨m.memory.store offset bytes, m.control⟩) := by
  simp only [change, Memory.write, Memory.checkRange, if_pos fits]

theorem change_fillZero {offset length : Nat} {m : Machine σ} (fits : m.memory.Fits offset length) :
    change (Memory.fillZero offset length) m =
      (.ok (), ⟨m.memory.store offset (List.replicate length 0), m.control⟩) := by
  rw [Memory.fillZero_eq_write]
  exact change_write (by rwa [List.length_replicate])

end Action

namespace Engine

variable {τ : Type} {parse : ParseCall → Action (Linear τ) Int} {text : Text}
  {m : Machine (Linear τ)}

/-- The machine at the moment of the call. -/
def ready (text : Text) (m : Machine (Linear τ)) : Machine (Linear τ) :=
  let call := m.control.scratch.layout (Text.byteLength text)
  ⟨m.memory.laidOut call (Text.encode text),
    { m.control with scratch := ⟨call.statement, m.control.scratch.limit⟩ }⟩

theorem fits_place {s : Scratch} {n : Nat} (addressed : Linear.Addressed m)
    (below : s.pointer ≤ m.control.scratch.pointer) (h : s.FitsNext n) :
    m.memory.Fits (s.place n) n :=
  Nat.le_trans (Scratch.place_add_le h) (Nat.le_trans below addressed.within)

theorem fits_input (addressed : Linear.Addressed m)
    (first : m.control.scratch.FitsNext (Text.byteLength text + 1)) :
    let input := m.control.scratch.place (Text.byteLength text + 1)
    m.memory.Fits input (Text.encode text).length ∧
      input + Text.byteLength text < 0x100000000 ∧
      m.memory.Fits (input + Text.byteLength text) 1 := by
  have fits := fits_place addressed (Nat.le_refl _) first
  have short := addressed.short
  have bytes := Text.length_encode text
  rw [Memory.fits_iff] at fits
  refine ⟨?_, by omega, ?_⟩
  · rw [Memory.fits_iff]
    omega
  · rw [Memory.fits_iff]
    omega

theorem marshal_of_holds (addressed : Linear.Addressed m)
    (room : m.control.scratch.Holds (Scratch.callSizes (Text.byteLength text))) :
    (linear parse).marshal text m =
      (.ok (m.control.scratch.layout (Text.byteLength text)), ready text m) := by
  obtain ⟨first, second, third, _⟩ := room
  have ⟨input, address, terminator⟩ := fits_input addressed first
  have status := fits_place addressed (Scratch.place_le ..) second
  have statement :=
    fits_place addressed (Nat.le_trans (Scratch.place_le ..) (Scratch.place_le ..)) third
  simp only [marshal, linear, Action.bind_run, Linear.alloc_of_fitsNext, first, second, third,
    Action.change_write, Action.change_fillZero, Action.read, addressAfter, if_pos address,
    Memory.fits_store_iff, input, terminator, status, statement, List.length_singleton,
    Action.pure_run]
  rfl

/-- Without room for all three allocations the first that does not fit ends the layout. Nothing but
free space has been written by then. -/
theorem marshal_of_not_holds (parse : ParseCall → Action (Linear τ) Int)
    (addressed : Linear.Addressed m)
    (full : ¬ m.control.scratch.Holds (Scratch.callSizes (Text.byteLength text))) :
    let overflow := m.control.scratch.refused (Scratch.callSizes (Text.byteLength text))
    ∃ memory scratch, (linear parse).marshal text m =
        (.error (.stackOverflow overflow.requested overflow.available),
          ⟨memory, { m.control with scratch }⟩) ∧
      memory.SameOutside m.control.scratch.limit m.control.scratch.pointer m.memory ∧
      scratch.limit = m.control.scratch.limit := by
  intro overflow
  by_cases first : m.control.scratch.FitsNext (Text.byteLength text + 1)
  · have ⟨input, address, terminator⟩ := fits_input addressed first
    have above := first.2
    have below := Scratch.place_add_le first
    have bytes := Text.length_encode text
    by_cases second : (m.control.scratch.push (Text.byteLength text + 1)).FitsNext
        Status.recordSize
    · have status := fits_place addressed (Scratch.place_le ..) second
      have third : ¬ ((m.control.scratch.push (Text.byteLength text + 1)).push
          Status.recordSize).FitsNext Statement.recordSize :=
        fun third => full ⟨first, second, third, trivial⟩
      have above' : m.control.scratch.limit ≤ _ := second.2
      have below' : _ ≤ m.control.scratch.place (Text.byteLength text + 1) :=
        Scratch.place_add_le second
      simp only [marshal, linear, Action.bind_run, Linear.alloc_of_fitsNext,
        Linear.alloc_of_not_fitsNext, first, second, third, Action.change_write,
        Action.change_fillZero, Action.read, addressAfter, if_pos address,
        Memory.fits_store_iff, input, terminator, status, List.length_singleton,
        not_false_eq_true, overflow, Scratch.refused, Scratch.callSizes, if_true, if_false]
      refine ⟨_, _, rfl, ?_, rfl⟩
      refine (((Memory.SameOutside.refl _).store above ?_).store ?_ ?_).store above' ?_
      · omega
      · omega
      · rw [List.length_singleton]
        omega
      · rw [List.length_replicate]
        omega
    · simp only [marshal, linear, Action.bind_run, Linear.alloc_of_fitsNext,
        Linear.alloc_of_not_fitsNext, first, second, Action.change_write, Action.read,
        addressAfter, if_pos address, Memory.fits_store_iff, input, terminator,
        List.length_singleton, not_false_eq_true, overflow, Scratch.refused, Scratch.callSizes,
        if_true, if_false]
      refine ⟨_, _, rfl, ?_, rfl⟩
      refine ((Memory.SameOutside.refl _).store above ?_).store ?_ ?_
      · omega
      · omega
      · rw [List.length_singleton]
        omega
  · simp only [marshal, linear, Action.bind_run, Linear.alloc_of_not_fitsNext, first,
      not_false_eq_true, overflow, Scratch.refused, Scratch.callSizes, if_false]
    exact ⟨_, _, rfl, .refl _, rfl⟩

end Engine

end SchemaHighlighter
