/-!
# The scratch stack

Scratch space is a stack of addresses that grows downwards from a top to a limit. Allocations
begin at multiples of sixteen, and one that would pass the limit is refused and changes
nothing.
-/
namespace SchemaHighlighter

/-- The greatest multiple of sixteen that is not above `n`. -/
def alignDown (n : Nat) : Nat := n / 16 * 16

structure Scratch where
  pointer : Nat
  limit : Nat
  deriving DecidableEq, Repr

/-- A request for scratch space that does not fit. -/
structure Overflow where
  requested : Nat
  available : Nat
  deriving DecidableEq, Repr

namespace Scratch

/-- The stack in the top `room` bytes of a memory of `size` bytes. -/
def atTop (size room : Nat) : Scratch := ⟨alignDown size, alignDown size - room⟩

def available (s : Scratch) : Nat := s.pointer - s.limit

/-- Where an allocation of `n` bytes would begin. -/
def place (s : Scratch) (n : Nat) : Nat := alignDown (s.pointer - n)

def alloc (s : Scratch) (n : Nat) : Except Overflow Nat × Scratch :=
  if n ≤ s.pointer ∧ s.limit ≤ s.place n then
    (.ok (s.place n), { s with pointer := s.place n })
  else (.error ⟨n, s.available⟩, s)

def restore (s : Scratch) (marker : Nat) : Scratch := { s with pointer := marker }

end Scratch

end SchemaHighlighter
