import SchemaHighlighter.Text.Basic

/-!
# Bytes with checked access

A memory is a fixed run of bytes at 32-bit addresses. Words are signed, four bytes long, least
byte first, and lie at multiples of four. Every access is checked before it touches a byte, so
it happens wholly or not at all.
-/
namespace SchemaHighlighter

structure Memory where
  bytes : Array UInt8
  deriving DecidableEq

inductive AccessError where
  | unaligned (offset : Nat)
  | outOfBounds (offset length size : Nat)
  /-- A view whose start or length is below zero. -/
  | negativeView (offset : Nat) (start length : Int)
  /-- A sum that leaves the 32-bit address space. -/
  | addressOverflow (offset distance : Nat)
  deriving DecidableEq, Repr

def AccessError.message : AccessError → String
  | unaligned offset => s!"unaligned access at byte offset {offset}"
  | outOfBounds offset length size =>
    s!"access of {length} bytes at {offset} exceeds memory size {size}"
  | negativeView offset start length =>
    s!"string view at {offset} has negative field (start {start}, len {length})"
  | addressOverflow offset distance => s!"no address lies {distance} bytes after {offset}"

/-- The address `distance` bytes after `offset`. -/
def addressAfter (offset distance : Nat) : Except AccessError Nat :=
  if offset + distance < 0x100000000 then .ok (offset + distance)
  else .error (.addressOverflow offset distance)

/-- The signed word with these bytes, least first. -/
def wordOfBytes (b₀ b₁ b₂ b₃ : UInt8) : Int :=
  Int.bmod (b₀.toNat + 0x100 * b₁.toNat + 0x10000 * b₂.toNat + 0x1000000 * b₃.toNat : Nat)
    0x100000000

/-- The four bytes of a word, least first. -/
def bytesOfWord (value : Int) : List UInt8 :=
  let n := (value % 0x100000000).toNat
  [UInt8.ofNat n, UInt8.ofNat (n / 0x100), UInt8.ofNat (n / 0x10000), UInt8.ofNat (n / 0x1000000)]

/-- A stretch of the input: its bytes, each read as one character, and where it begins. -/
structure SourceSpan where
  value : Text := []
  offset : Nat := 0
  deriving DecidableEq, Repr, Inhabited

/-- One past the last byte, for each character stands for one byte. -/
def SourceSpan.stop (s : SourceSpan) : Nat := s.offset + s.value.length

namespace Memory

def size (m : Memory) : Nat := m.bytes.size

def filled (size : Nat) (b : UInt8) : Memory := ⟨Array.replicate size b⟩

def zeros (size : Nat) : Memory := filled size 0

/-- Whether `length` bytes from `offset` on lie in the memory. -/
def Fits (m : Memory) (offset length : Nat) : Prop := offset + length ≤ m.size

instance (m : Memory) (offset length : Nat) : Decidable (m.Fits offset length) :=
  inferInstanceAs (Decidable (_ ≤ _))

def checkRange (m : Memory) (offset length : Nat) : Except AccessError Unit :=
  if m.Fits offset length then .ok () else .error (.outOfBounds offset length m.size)

def checkAligned (offset : Nat) : Except AccessError Unit :=
  if offset % 4 = 0 then .ok () else .error (.unaligned offset)

/-- The byte at an address, zero outside the memory. -/
def byteAt (m : Memory) (offset : Nat) : UInt8 := m.bytes.getD offset 0

/-- The bytes of a range, as far as it lies in the memory. -/
def slice (m : Memory) (offset length : Nat) : List UInt8 :=
  (m.bytes.extract offset (offset + length)).toList

/-- The bytes of a range that lies wholly in the memory. -/
def slice? (m : Memory) (offset length : Nat) : Option (List UInt8) :=
  if m.Fits offset length then some (m.slice offset length) else none

/-- Puts bytes at `offset` and after, as far as they lie in the memory. -/
def store (m : Memory) (offset : Nat) : List UInt8 → Memory
  | [] => m
  | b :: rest => store ⟨m.bytes.setIfInBounds offset b⟩ (offset + 1) rest

def readByte (m : Memory) (offset : Nat) : Except AccessError UInt8 := do
  m.checkRange offset 1
  return m.byteAt offset

def readWord (m : Memory) (offset : Nat) : Except AccessError Int := do
  checkAligned offset
  m.checkRange offset 4
  return wordOfBytes (m.byteAt offset) (m.byteAt (offset + 1)) (m.byteAt (offset + 2))
    (m.byteAt (offset + 3))

/-- Reads the view at `offset`, an absolute start and a length, and the bytes that it names.
Where the span begins is told relative to `base`, and is zero for a view that begins before. -/
def readSpan (m : Memory) (offset base : Nat) : Except AccessError SourceSpan := do
  let start ← m.readWord offset
  let length ← m.readWord (← addressAfter offset 4)
  if start < 0 ∨ length < 0 then throw (.negativeView offset start length)
  m.checkRange start.toNat length.toNat
  return {
    value := (m.slice start.toNat length.toNat).map fun b => Char.ofNat b.toNat
    offset := start.toNat - base }

/-- A change to a memory that may be refused; a refused change leaves the memory as it was. -/
abbrev Change := Memory → Except AccessError Unit × Memory

def write (offset : Nat) (bytes : List UInt8) : Change := fun m =>
  match m.checkRange offset bytes.length with
  | .error e => (.error e, m)
  | .ok () => (.ok (), m.store offset bytes)

def writeWord (offset : Nat) (value : Int) : Change := fun m =>
  match checkAligned offset with
  | .error e => (.error e, m)
  | .ok () => write offset (bytesOfWord value) m

def fillZero (offset length : Nat) : Change := fun m =>
  match m.checkRange offset length with
  | .error e => (.error e, m)
  | .ok () => (.ok (), m.store offset (List.replicate length 0))

theorem size_store (m : Memory) (offset : Nat) (bytes : List UInt8) :
    (m.store offset bytes).size = m.size := by
  induction bytes generalizing m offset with
  | nil => rfl
  | cons b rest ih => rw [store, ih]; simp [size]

/-- A stored run is read back at its own addresses, and every other byte stays. -/
theorem byteAt_store (m : Memory) (offset : Nat) (bytes : List UInt8) (a : Nat) :
    (m.store offset bytes).byteAt a =
      if offset ≤ a ∧ a < m.size then bytes.getD (a - offset) (m.byteAt a) else m.byteAt a := by
  induction bytes generalizing m offset with
  | nil => simp [store]
  | cons b rest ih =>
    simp only [store]
    rw [ih]
    simp only [size, byteAt, Array.size_setIfInBounds, Array.getD_eq_getD_getElem?,
      Array.getElem?_setIfInBounds, List.getD_eq_getElem?_getD]
    by_cases h : offset = a
    · subst h
      have : ¬ offset + 1 ≤ offset := by omega
      by_cases hs : offset < m.bytes.size <;> simp [hs, this]
    · by_cases hlt : offset + 1 ≤ a
      · have : a - offset = (a - (offset + 1)) + 1 := by omega
        simp [h, hlt, this, Nat.le_of_succ_le hlt]
      · have : ¬ offset ≤ a := by omega
        simp [h, hlt, this]

/-- To clear a range is to write zeros to all of it. -/
theorem fillZero_eq_write (offset length : Nat) :
    fillZero offset length = write offset (List.replicate length 0) := by
  funext m
  simp only [fillZero, write, List.length_replicate]

end Memory

end SchemaHighlighter
