import SchemaHighlighter.Proofs.Record.WellFormed

/-! # Unguarded access

The records read once more, so that no mistake is hidden: a sum that leaves the 32-bit address
space, and a byte taken from outside the memory, end the program. The checks stay where they
are. As long as a word that was read is not among the last of the address space, they are
enough, and both ways of reading come to the same. -/
namespace SchemaHighlighter

/-- What reading comes to, or nothing if the program ends. -/
def Unguarded (α : Type) : Type := Option (Except AccessError α)

namespace Unguarded

variable {α β : Type}

def andThen (x : Unguarded α) (f : α → Unguarded β) : Unguarded β :=
  match x with
  | none => none
  | some (.error e) => some (.error e)
  | some (.ok a) => f a

instance : Monad Unguarded where
  pure a := some (.ok a)
  bind := andThen

/-- The program goes on, or fails in an orderly way. -/
def checked (x : Except AccessError α) : Unguarded α := some x

def orEnd : Option α → Unguarded α
  | none => none
  | some a => some (.ok a)

def sum (offset distance : Nat) : Unguarded Nat :=
  orEnd (if offset + distance < 0x100000000 then some (offset + distance) else none)

def byte (m : Memory) (offset : Nat) : Unguarded UInt8 := orEnd m.bytes[offset]?

def bytes (m : Memory) (offset length : Nat) : Unguarded (List UInt8) :=
  orEnd (m.slice? offset length)

def readByte (m : Memory) (offset : Nat) : Unguarded UInt8 := do
  checked (m.checkRange offset 1)
  byte m offset

def readWord (m : Memory) (offset : Nat) : Unguarded Int := do
  checked (Memory.checkAligned offset)
  checked (m.checkRange offset 4)
  return wordOfBytes (← byte m offset) (← byte m (offset + 1)) (← byte m (offset + 2))
    (← byte m (offset + 3))

def readSpan (m : Memory) (offset base : Nat) : Unguarded SourceSpan := do
  let start ← readWord m offset
  let length ← readWord m (← sum offset 4)
  if start < 0 ∨ length < 0 then checked (.error (.negativeView offset start length))
  checked (m.checkRange start.toNat length.toNat)
  return {
    value := (← bytes m start.toNat length.toNat).map fun b => Char.ofNat b.toNat
    offset := start.toNat - base }

def readStatus (m : Memory) (offset base : Nat) : Unguarded Status := do
  let code := StatusCode.ofRaw (← readWord m offset)
  if code.isResumable then return { code }
  let length ← readWord m (← sum offset 8)
  if 0 < length then
    return { code, errorLocation := ← readSpan m (← sum offset 4) base }
  return { code }

def readData (m : Memory) (kind : StatementKind) (offset base : Nat) :
    Unguarded StatementData := do
  let define (d : DefinitionKind) := return .definition d (← readSpan m offset base)
  match kind with
  | .package =>
    let isMain ← readByte m offset
    return .package (isMain != 0) (← readSpan m (← sum offset 4) base)
  | .importing => return .importing (← readSpan m offset base)
  | .component => define .component
  | .transient => define .transient
  | .system => define .system
  | .action => define .action
  | .enum => define .enum
  | .enumValue =>
    let name ← readSpan m offset base
    return .enumValue name (← readWord m (← sum offset 8))
  | .builtinTypeField =>
    let type ← readWord m offset
    let name ← readSpan m (← sum offset 4) base
    return .field (BuiltinType.ofRaw? type) name (← readWord m (← sum offset 12))
  | .none => return .bare .none
  | .unknown => return .bare .unknown
  | .userTypeField => return .bare .userTypeField
  | .entityField => return .bare .entityField
  | .systemComponent => return .bare .systemComponent
  | .systemGenerates => return .bare .systemGenerates
  | .systemWithEntity => return .bare .systemWithEntity
  | .entityConstraint => return .bare .entityConstraint

def readStatement (m : Memory) (offset base : Nat) : Unguarded Statement := do
  let id ← readWord m offset
  let kind := StatementKind.ofRaw (← readWord m (← sum offset 4))
  return { id, data := ← readData m kind (← sum offset 8) base }

/-- Two ways of reading agree one step after another, the second step where the first came to
something. -/
theorem bind_eq_checked {x' : Unguarded α} {x : Except AccessError α} {f' : α → Unguarded β}
    {f : α → Except AccessError β} (first : x' = checked x)
    (next : ∀ a, x = .ok a → f' a = checked (f a)) : x' >>= f' = checked (x >>= f) := by
  subst first
  cases x with
  | error e => rfl
  | ok a => exact next a rfl

theorem sum_eq_checked {offset distance : Nat} (h : offset + distance < 0x100000000) :
    sum offset distance = checked (addressAfter offset distance) := by
  rw [sum, if_pos h, addressAfter_ok h]
  rfl

variable {m : Memory} {offset base : Nat}

theorem byte_eq_checked (fits : m.Fits offset 1) :
    byte m offset = checked (.ok (m.byteAt offset)) := by
  rw [Memory.fits_iff, Memory.size] at fits
  rw [byte, Array.getElem?_eq_getElem (by omega), Memory.byteAt, Array.getD_eq_getD_getElem?,
    Array.getElem?_eq_getElem (by omega)]
  rfl

theorem bytes_eq_checked {length : Nat} (fits : m.Fits offset length) :
    bytes m offset length = checked (.ok (m.slice offset length)) := by
  rw [bytes, Memory.slice?, if_pos fits]
  rfl

theorem readByte_eq_checked (m : Memory) (offset : Nat) :
    readByte m offset = checked (m.readByte offset) := by
  refine bind_eq_checked rfl ?_
  intro _ inside
  exact byte_eq_checked (Memory.checkRange_eq_ok_iff.1 inside)

theorem readWord_eq_checked (m : Memory) (offset : Nat) :
    readWord m offset = checked (m.readWord offset) := by
  refine bind_eq_checked rfl ?_
  intro _ aligned
  refine bind_eq_checked rfl ?_
  intro _ inside
  have fits := Memory.checkRange_eq_ok_iff.1 inside
  rw [byte_eq_checked (fits.part (by omega)), byte_eq_checked (fits.part (by omega)),
    byte_eq_checked (fits.part (by omega)), byte_eq_checked (fits.part (by omega))]
  rfl

theorem fits_of_readWord {value : Int} (h : m.readWord offset = .ok value) : m.Fits offset 4 :=
  (Memory.readWord_eq_ok_iff.1 h).2.1

theorem readSpan_eq_checked (near : m.Fits offset 4 → offset + 4 < 0x100000000) :
    readSpan m offset base = checked (m.readSpan offset base) := by
  refine bind_eq_checked (readWord_eq_checked m offset) ?_
  intro start startRead
  refine bind_eq_checked (sum_eq_checked (near (fits_of_readWord startRead))) ?_
  intro next _
  refine bind_eq_checked (readWord_eq_checked m next) ?_
  intro length _
  by_cases negative : start < 0 ∨ length < 0
  · simp only [if_pos negative]
    rfl
  · simp only [if_neg negative]
    refine bind_eq_checked rfl ?_
    intro _ inside
    rw [bytes_eq_checked (Memory.checkRange_eq_ok_iff.1 inside)]
    rfl

end Unguarded

namespace Memory

variable {m : Memory} {offset length : Nat}

/-- Wherever a word of the record lies in the memory, eight bytes on there is still an address. -/
def Addressable (m : Memory) (offset length : Nat) : Prop :=
  ∀ d, d + 8 ≤ length → m.Fits (offset + d) 4 → offset + d + 8 < 0x100000000

theorem addressable_of_fits (short : m.size < 0x100000000) (fits : m.Fits offset length) :
    m.Addressable offset length := by
  intro d within _
  rw [fits_iff] at fits
  omega

end Memory

namespace Unguarded

variable {m : Memory} {offset base : Nat} {kind : StatementKind}

theorem readStatus_eq_checked (near : m.Addressable offset Status.recordSize) :
    readStatus m offset base = checked (Status.read m offset base) := by
  refine bind_eq_checked (readWord_eq_checked m offset) ?_
  intro raw codeRead
  have reach := near 0 (by decide) (fits_of_readWord codeRead)
  by_cases resumable : (StatusCode.ofRaw raw).isResumable = true
  · simp only [if_pos resumable]
    rfl
  · simp only [if_neg resumable]
    refine bind_eq_checked (sum_eq_checked (by omega)) ?_
    intro next _
    refine bind_eq_checked (readWord_eq_checked m next) ?_
    intro length _
    by_cases empty : 0 < length
    · simp only [if_pos empty]
      refine bind_eq_checked (sum_eq_checked (by omega)) ?_
      intro view found
      refine bind_eq_checked (readSpan_eq_checked ?_) fun _ _ => rfl
      rw [eq_of_addressAfter found]
      omega
    · simp only [if_neg empty]
      rfl

/-- A payload begins at an address, and no kind has more than sixteen bytes of it read. -/
theorem readData_eq_checked (first : offset + 4 < 0x100000000) (near : m.Addressable offset 16) :
    readData m kind offset base = checked (StatementData.read m kind offset base) := by
  have second : ∀ {view span}, m.readSpan view base = .ok span → view ≤ offset + 4 →
      offset ≤ view → view + 12 < 0x100000000 := by
    intro view span read low high
    obtain ⟨-, fits, -⟩ := Memory.viewFits_of_readSpan read
    have := near (view + 4 - offset) (by omega) (fits.record.part (by omega))
    omega
  cases kind with
  | none | unknown | userTypeField | entityField | systemComponent | systemGenerates
  | systemWithEntity | entityConstraint => rfl
  | importing | component | transient | system | action | enum =>
    exact bind_eq_checked (readSpan_eq_checked fun _ => first) fun _ _ => rfl
  | package =>
    refine bind_eq_checked (readByte_eq_checked m offset) ?_
    intro main _
    refine bind_eq_checked (sum_eq_checked first) ?_
    intro view found
    rw [eq_of_addressAfter found]
    refine bind_eq_checked (readSpan_eq_checked ?_) fun _ _ => rfl
    intro fits
    have := near 4 (by decide) fits
    omega
  | enumValue =>
    refine bind_eq_checked (readSpan_eq_checked fun _ => first) ?_
    intro name read
    refine bind_eq_checked (sum_eq_checked ?_) ?_
    · have := second read (by omega) (by omega)
      omega
    · intro next _
      exact bind_eq_checked (readWord_eq_checked m next) fun _ _ => rfl
  | builtinTypeField =>
    refine bind_eq_checked (readWord_eq_checked m offset) ?_
    intro type _
    refine bind_eq_checked (sum_eq_checked first) ?_
    intro view found
    rw [eq_of_addressAfter found]
    refine bind_eq_checked (readSpan_eq_checked ?_) ?_
    · intro fits
      have := near 4 (by decide) fits
      omega
    · intro name read
      refine bind_eq_checked (sum_eq_checked ?_) ?_
      · have := second read (by omega) (by omega)
        omega
      · intro next _
        exact bind_eq_checked (readWord_eq_checked m next) fun _ _ => rfl

theorem readStatement_eq_checked (near : m.Addressable offset Statement.recordSize) :
    readStatement m offset base = checked (Statement.read m offset base) := by
  refine bind_eq_checked (readWord_eq_checked m offset) ?_
  intro id idRead
  have reach := near 0 (by decide) (fits_of_readWord idRead)
  refine bind_eq_checked (sum_eq_checked (by omega)) ?_
  intro next found
  refine bind_eq_checked (readWord_eq_checked m next) ?_
  intro raw kindRead
  rw [eq_of_addressAfter found] at kindRead
  have reach' := near 4 (by decide) (fits_of_readWord kindRead)
  refine bind_eq_checked (sum_eq_checked (by omega)) ?_
  intro payload found
  rw [eq_of_addressAfter found]
  refine bind_eq_checked (readData_eq_checked (by omega) ?_) fun _ _ => rfl
  intro d within fits
  have reach := near (8 + d) (by simp only [Statement.recordSize]; omega)
    (by rwa [← Nat.add_assoc])
  omega

end Unguarded

end SchemaHighlighter
