import SchemaHighlighter.Proofs.Engine.Marshal

/-! # The bounds of the scratch stack

The pointer of a scratch stack stays at a multiple of sixteen between the limit and the top,
however memory is taken and given back. An allocation takes its size rounded up from the end of
what is free, and it is refused exactly when that is more than what is free. -/
namespace SchemaHighlighter

/-- The least multiple of sixteen that is not below `n`. -/
def alignUp (n : Nat) : Nat := (n + 15) / 16 * 16

/-- A run of bytes in memory. -/
structure Region where
  start : Nat
  length : Nat
  deriving DecidableEq, Repr

namespace Region

def stop (r : Region) : Nat := r.start + r.length

def Covers (r : Region) (address : Nat) : Prop := r.start ≤ address ∧ address < r.stop

def Disjoint (r t : Region) : Prop := r.stop ≤ t.start ∨ t.stop ≤ r.start

def Within (r : Region) (low high : Nat) : Prop := low ≤ r.start ∧ r.stop ≤ high

theorem not_covers_iff {r : Region} {address : Nat} :
    ¬ r.Covers address ↔ address < r.start ∨ r.stop ≤ address := by
  rw [Covers]
  omega

end Region

namespace Scratch

variable {size room n : Nat} {s t : Scratch}

/-- The stacks that come of one at the top of a memory by allocations and by ends of scopes, which
put the pointer where it was before. -/
inductive Reachable (size room : Nat) : Scratch → Prop
  | atTop : Reachable size room (atTop size room)
  | alloc {s : Scratch} (n : Nat) : Reachable size room s → Reachable size room (s.alloc n).2
  | exit {s t : Scratch} : Reachable size room s → Reachable size room t →
    Reachable size room (t.restore s.pointer)

/-- A stack in the top `room` bytes of a memory of `size` bytes. -/
structure InBounds (size room : Nat) (s : Scratch) : Prop where
  limit : s.limit = alignDown size - room
  limit_le : s.limit ≤ s.pointer
  pointer_le : s.pointer ≤ alignDown size
  aligned : s.pointer % 16 = 0

theorem alignDown_le (n : Nat) : alignDown n ≤ n := Nat.div_mul_le_self n 16

theorem InBounds.pointer_le_size (h : s.InBounds size room) : s.pointer ≤ size :=
  Nat.le_trans h.pointer_le (alignDown_le size)

theorem fitsNext_iff (h : s.InBounds size room) : s.FitsNext n ↔ alignUp n ≤ s.available := by
  have above := h.limit_le
  have aligned := h.aligned
  rw [FitsNext, place, alignDown, alignUp, available]
  omega

theorem place_eq (h : s.InBounds size room) (fits : s.FitsNext n) :
    s.place n = s.pointer - alignUp n := by
  have below := fits.1
  have aligned := h.aligned
  rw [place, alignDown, alignUp]
  omega

theorem place_mod (s : Scratch) (n : Nat) : s.place n % 16 = 0 := Nat.mul_mod_left _ 16

theorem InBounds.push (h : s.InBounds size room) (fits : s.FitsNext n) :
    (s.push n).InBounds size room :=
  ⟨h.limit, fits.2, Nat.le_trans (place_le s n) h.pointer_le, place_mod s n⟩

theorem alloc_of_fitsNext (fits : s.FitsNext n) : s.alloc n = (.ok (s.place n), s.push n) := by
  rw [FitsNext] at fits
  simp only [alloc, if_pos fits, push]

theorem alloc_of_not_fitsNext (full : ¬ s.FitsNext n) :
    s.alloc n = (.error ⟨n, s.available⟩, s) := by
  rw [FitsNext] at full
  simp only [alloc, if_neg full]

theorem InBounds.alloc (h : s.InBounds size room) (n : Nat) :
    (s.alloc n).2.InBounds size room := by
  by_cases fits : s.FitsNext n
  · rw [alloc_of_fitsNext fits]
    exact h.push fits
  · rw [alloc_of_not_fitsNext fits]
    exact h

theorem InBounds.restore (h : s.InBounds size room) (h' : t.InBounds size room) :
    (t.restore s.pointer).InBounds size room := by
  refine ⟨h'.limit, ?_, h.pointer_le, h.aligned⟩
  have above := h.limit_le
  rw [h.limit, ← h'.limit] at above
  exact above

theorem inBounds_atTop (size room : Nat) : (atTop size room).InBounds size room :=
  ⟨rfl, Nat.sub_le .., Nat.le_refl _, Nat.mul_mod_left _ 16⟩

theorem inBounds_of_reachable (h : Reachable size room s) : s.InBounds size room := by
  induction h with
  | atTop => exact inBounds_atTop size room
  | alloc n _ ih => exact ih.alloc n
  | exit _ _ ih ih' => exact ih.restore ih'

end Scratch

end SchemaHighlighter
