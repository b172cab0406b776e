import SchemaHighlighter.Proofs.Engine.Unguarded

/-! # What a memory holds after any number of writes

Writes of words, of bytes and of zeros may overlap in part and come in any order. Each happens
wholly or not at all and leaves alone what lies outside its range. So at every address there is
the byte that the last of them put there, and a word is read back from four such bytes, whichever
writes they came from. -/
namespace SchemaHighlighter

namespace Memory

/-- A change to the bytes of a memory. -/
inductive Write where
  | word (offset : Nat) (value : Int)
  | bytes (offset : Nat) (content : List UInt8)
  | zeros (offset length : Nat)
  deriving DecidableEq

namespace Write

def offset : Write → Nat
  | word offset _ | bytes offset _ | zeros offset _ => offset

/-- The bytes that it puts at its offset and after. -/
def content : Write → List UInt8
  | word _ value => bytesOfWord value
  | bytes _ content => content
  | zeros _ length => List.replicate length 0

def change : Write → Change
  | word offset value => writeWord offset value
  | bytes offset content => write offset content
  | zeros offset length => fillZero offset length

/-- Words lie at multiples of four. -/
def IsAligned : Write → Prop
  | word offset _ => offset % 4 = 0
  | bytes _ _ | zeros _ _ => True

/-- All of its range lies in a memory of `size` bytes. -/
def Allowed (w : Write) (size : Nat) : Prop :=
  w.IsAligned ∧ w.offset + w.content.length ≤ size

def Covers (w : Write) (a : Nat) : Prop := w.offset ≤ a ∧ a < w.offset + w.content.length

instance : DecidablePred IsAligned
  | word offset _ => inferInstanceAs (Decidable (offset % 4 = 0))
  | bytes _ _ | zeros _ _ => inferInstanceAs (Decidable True)

instance (w : Write) (size : Nat) : Decidable (w.Allowed size) :=
  inferInstanceAs (Decidable (_ ∧ _))

/-- What a write comes to, wholly or not at all. -/
structure Atomic (w : Write) (before : Memory) (outcome : Except AccessError Unit)
    (after : Memory) : Prop where
  change : w.change before = (outcome, after)
  allowed : outcome = .ok () ↔ w.Allowed before.size
  refused : outcome ≠ .ok () → after = before
  size : after.size = before.size
  outside : ∀ a, ¬ w.Covers a → after.byteAt a = before.byteAt a

/-- The byte that it puts at an address of a memory of `size` bytes, if any. -/
def byte? (size a : Nat) (w : Write) : Option UInt8 :=
  if w.Allowed size ∧ w.offset ≤ a then w.content[a - w.offset]? else none

end Write

/-- One write after another, each in the memory that the ones before it have left. -/
def run (writes : List Write) (m : Memory) : Memory := writes.foldl (fun m w => (w.change m).2) m

/-- The byte last written to an address, or what was there to begin with. -/
def lastByte (m : Memory) (writes : List Write) (a : Nat) : UInt8 :=
  (writes.reverse.findSome? (Write.byte? m.size a)).getD (m.byteAt a)

end Memory

/-- The signed 32-bit number with these four bytes, least first. -/
structure HasBytes (value : Int) (b₀ b₁ b₂ b₃ : UInt8) : Prop where
  low : -0x80000000 ≤ value
  high : value < 0x80000000
  bytes : value % 0x100000000 =
    b₀.toNat + 0x100 * b₁.toNat + 0x10000 * b₂.toNat + 0x1000000 * b₃.toNat

namespace Unguarded

/-- Counts bytes in 32 bits and copies them to a range of that length. Bytes of another number
than the range has room for end the program. -/
def copy (offset : Nat) (bytes : List UInt8) (m : Memory) :
    Option (Except AccessError Unit × Memory) :=
  let length := bytes.length % 0x100000000
  match m.checkRange offset length with
  | .error e => some (.error e, m)
  | .ok () =>
    if length = bytes.length then (store m offset bytes).map fun m => (.ok (), m) else none

def write : Memory.Write → Memory → Option (Except AccessError Unit × Memory)
  | .word offset value, m =>
    match Memory.checkAligned offset with
    | .error e => some (.error e, m)
    | .ok () => copy offset (bytesOfWord value) m
  | .bytes offset content, m => copy offset content m
  | .zeros offset length, m => copy offset (List.replicate length 0) m

end Unguarded

namespace Memory

variable {m : Memory} {w : Write} {writes : List Write} {offset a : Nat} {bytes : List UInt8}

/-! ## One write -/

theorem write_of_fits (fits : m.Fits offset bytes.length) :
    write offset bytes m = (.ok (), m.store offset bytes) := by
  simp only [write, checkRange, if_pos fits]

theorem write_of_not_fits (outside : ¬ m.Fits offset bytes.length) :
    write offset bytes m = (.error (.outOfBounds offset bytes.length m.size), m) := by
  simp only [write, checkRange, if_neg outside]

namespace Write

theorem change_of_allowed (allowed : w.Allowed m.size) :
    w.change m = (.ok (), m.store w.offset w.content) := by
  obtain ⟨aligned, fits⟩ := allowed
  cases w with
  | word offset value =>
    have whole : offset % 4 = 0 := aligned
    simp only [change, writeWord, checkAligned, if_pos whole]
    exact write_of_fits fits
  | bytes offset content => exact write_of_fits fits
  | zeros offset length =>
    simp only [change, fillZero_eq_write]
    exact write_of_fits fits

/-- A write that is refused leaves the whole memory as it was. -/
theorem exists_change_of_refused (refused : ¬ w.Allowed m.size) :
    ∃ error, w.change m = (.error error, m) := by
  cases w with
  | word offset value =>
    by_cases whole : offset % 4 = 0
    · have outside : ¬ m.Fits offset (bytesOfWord value).length := fun fits => refused ⟨whole, fits⟩
      simp only [change, writeWord, checkAligned, if_pos whole]
      exact ⟨_, write_of_not_fits outside⟩
    · simp only [change, writeWord, checkAligned, if_neg whole]
      exact ⟨_, rfl⟩
  | bytes offset content => exact ⟨_, write_of_not_fits fun fits => refused ⟨trivial, fits⟩⟩
  | zeros offset length =>
    simp only [change, fillZero_eq_write]
    exact ⟨_, write_of_not_fits fun fits => refused ⟨trivial, fits⟩⟩

theorem byteAt_change (w : Write) (m : Memory) (a : Nat) :
    (w.change m).2.byteAt a = (w.byte? m.size a).getD (m.byteAt a) := by
  by_cases allowed : w.Allowed m.size
  · have fits := allowed.2
    rw [change_of_allowed allowed, byteAt_store, byte?]
    simp only [allowed, true_and]
    by_cases behind : w.offset ≤ a
    · simp only [behind, if_true, true_and, List.getD_eq_getElem?_getD]
      split
      case isTrue => rfl
      case isFalse outside =>
        rw [List.getElem?_eq_none (by omega)]
        rfl
    · simp only [behind, if_false, false_and, Option.getD_none]
  · obtain ⟨error, refused⟩ := exists_change_of_refused allowed
    rw [refused, byte?, if_neg fun h => allowed h.1, Option.getD_none]

theorem byte?_of_not_covers (outside : ¬ w.Covers a) (size : Nat) : w.byte? size a = none := by
  rw [byte?]
  split
  case isTrue inside =>
    rw [Covers] at outside
    exact List.getElem?_eq_none (by omega)
  case isFalse => rfl

theorem atomic_change (w : Write) (m : Memory) : w.Atomic m (w.change m).1 (w.change m).2 := by
  have outside : ∀ a, ¬ w.Covers a → (w.change m).2.byteAt a = m.byteAt a := by
    intro a outside
    rw [byteAt_change, byte?_of_not_covers outside, Option.getD_none]
  by_cases allowed : w.Allowed m.size
  · have run := change_of_allowed allowed
    have done : (w.change m).1 = .ok () := congrArg Prod.fst run
    refine ⟨rfl, iff_of_true done allowed, fun other => absurd done other, ?_, outside⟩
    rw [run, size_store]
  · obtain ⟨error, run⟩ := exists_change_of_refused allowed
    have failed : (w.change m).1 ≠ .ok () := by
      rw [run]
      rintro ⟨⟩
    have same : (w.change m).2 = m := congrArg Prod.snd run
    exact ⟨rfl, iff_of_false failed allowed, fun _ => same, congrArg size same, outside⟩

theorem size_change (w : Write) (m : Memory) : (w.change m).2.size = m.size :=
  (w.atomic_change m).size

end Write

/-! ## Any number of writes -/

theorem size_run (writes : List Write) (m : Memory) : (run writes m).size = m.size := by
  induction writes generalizing m with
  | nil => rfl
  | cons w writes ih => exact (ih _).trans (w.size_change m)

theorem byteAt_run (writes : List Write) (m : Memory) (a : Nat) :
    (run writes m).byteAt a = lastByte m writes a := by
  induction writes generalizing m with
  | nil => rfl
  | cons w writes ih =>
    -- the search meets the first write last, behind all those that may have covered it
    have next : run (w :: writes) m = run writes (w.change m).2 := rfl
    rw [next, ih, lastByte, lastByte, w.size_change, w.byteAt_change, List.reverse_cons,
      List.findSome?_append, List.findSome?_singleton]
    cases writes.reverse.findSome? (Write.byte? m.size a) <;> rfl

end Memory

/-! ## Words -/

theorem hasBytes_wordOfBytes (b₀ b₁ b₂ b₃ : UInt8) :
    HasBytes (wordOfBytes b₀ b₁ b₂ b₃) b₀ b₁ b₂ b₃ := by
  have first := b₀.toNat_lt
  have second := b₁.toNat_lt
  have third := b₂.toNat_lt
  have last := b₃.toNat_lt
  unfold wordOfBytes
  constructor
  · exact Int.le_bmod (by decide)
  · exact Int.bmod_lt (by decide)
  · refine Int.bmod_emod.trans ?_
    omega

theorem hasBytes_of_bytesOfWord {value : Int} {b₀ b₁ b₂ b₃ : UInt8} (low : -0x80000000 ≤ value)
    (high : value < 0x80000000) (h : bytesOfWord value = [b₀, b₁, b₂, b₃]) :
    HasBytes value b₀ b₁ b₂ b₃ := by
  have back := (wordOfBytes_bytesOfWord value h).trans (signedWord_of_range low high)
  rw [← back]
  exact hasBytes_wordOfBytes b₀ b₁ b₂ b₃

/-- Four bytes say one number. -/
theorem HasBytes.unique {value other : Int} {b₀ b₁ b₂ b₃ : UInt8} (h : HasBytes value b₀ b₁ b₂ b₃)
    (h' : HasBytes other b₀ b₁ b₂ b₃) : other = value := by
  have same := h'.bytes.trans h.bytes.symm
  have := h.low
  have := h.high
  have := h'.low
  have := h'.high
  omega

namespace Unguarded

variable {m : Memory} {w : Memory.Write} {offset : Nat} {bytes : List UInt8}

theorem copy_eq_some (short : bytes.length < 0x100000000) (offset : Nat) (m : Memory) :
    copy offset bytes m = some (Memory.write offset bytes m) := by
  have length : bytes.length % 0x100000000 = bytes.length := Nat.mod_eq_of_lt short
  rw [copy, length]
  by_cases fits : m.Fits offset bytes.length
  · simp only [Memory.checkRange, if_pos fits, if_true, store_eq_some fits,
      Memory.write_of_fits fits, Option.map_some]
  · simp only [Memory.checkRange, if_neg fits, Memory.write_of_not_fits fits]

theorem write_eq_some (short : w.content.length < 0x100000000) (m : Memory) :
    write w m = some (w.change m) := by
  cases w with
  | word offset value =>
    by_cases whole : offset % 4 = 0
    · simp only [write, Memory.checkAligned, if_pos whole, Memory.Write.change, Memory.writeWord]
      exact copy_eq_some short offset m
    · simp only [write, Memory.checkAligned, if_neg whole, Memory.Write.change, Memory.writeWord]
  | bytes offset content => exact copy_eq_some short offset m
  | zeros offset length =>
    rw [Memory.Write.change, Memory.fillZero_eq_write]
    exact copy_eq_some short offset m

end Unguarded

namespace Memory

/-- Writes of any kind and in any order are atomic, stay within their ranges and are read back.
None ends the program, and each is refused exactly if its range does not lie in the memory or a
word is not aligned. -/
theorem writes_read_back (m : Memory) (writes : List Write)
    (short : ∀ w ∈ writes, w.content.length < 0x100000000) :
    (∀ done w later, writes = done ++ w :: later →
      (run done m).size = m.size ∧
        ∃ outcome after, Unguarded.write w (run done m) = some (outcome, after) ∧
          w.Atomic (run done m) outcome after) ∧
      (∀ o, o % 4 = 0 → m.Fits o 4 → ∃ value, (run writes m).readWord o = .ok value ∧
        HasBytes value (lastByte m writes o) (lastByte m writes (o + 1)) (lastByte m writes (o + 2))
          (lastByte m writes (o + 3))) ∧
      ∀ offset value, -0x80000000 ≤ value → value < 0x80000000 →
        ∃ b₀ b₁ b₂ b₃, (Write.word offset value).content = [b₀, b₁, b₂, b₃] ∧
          ∀ other, HasBytes other b₀ b₁ b₂ b₃ ↔ other = value := by
  refine ⟨?_, ?_, ?_⟩
  · rintro done w later rfl
    have counted := short w (List.mem_append_right done (.head later))
    exact ⟨size_run done m, _, _, Unguarded.write_eq_some counted (run done m),
      w.atomic_change (run done m)⟩
  · intro o aligned fits
    have fits' : (run writes m).Fits o 4 := fits.of_size (size_run writes m)
    refine ⟨_, readWord_eq aligned fits', ?_⟩
    simp only [wordAt, byteAt_run]
    exact hasBytes_wordOfBytes ..
  · intro offset value low high
    refine ⟨_, _, _, _, rfl, fun other => ⟨?_, ?_⟩⟩
    · exact (hasBytes_of_bytesOfWord low high rfl).unique
    · rintro rfl
      exact hasBytes_of_bytesOfWord low high rfl

/-- A negative word of which one byte is overwritten and one is cleared. The two writes between
them are refused, one of them far outside the memory. -/
theorem writes_read_back_of_overlap :
    let m := filled 8 0xAA
    let done : List Write := [.word 4 (-2), .bytes 6 [1], .word 2 7]
    let far : Write := .bytes 0xFFFFFFFF [1]
    let writes := done ++ far :: [.zeros 3 2]
    (∀ w ∈ writes, w.content.length < 0x100000000) ∧
      (∃ outcome, outcome ≠ .ok () ∧
        Unguarded.write far (run done m) = some (outcome, run done m)) ∧
      (run writes m).readWord 4 = .ok (-0xFE0100) := by
  intro m done far writes
  have short : ∀ w ∈ writes, w.content.length < 0x100000000 := by decide
  obtain ⟨steps, read, -⟩ := writes_read_back m writes short
  obtain ⟨size, outcome, after, run, atomic⟩ := steps done far _ rfl
  have failed : outcome ≠ .ok () := by
    rw [ne_eq, atomic.allowed, size]
    decide
  obtain ⟨value, found, low, high, bytes⟩ := read 4 rfl (by decide)
  have last : lastByte m writes 4 = 0 ∧ lastByte m writes 5 = 0xFF ∧ lastByte m writes 6 = 1 ∧
      lastByte m writes 7 = 0xFF := by decide
  obtain ⟨first, second, third, fourth⟩ := last
  have same : value = -0xFE0100 := by
    rw [first, second, third, fourth] at bytes
    change value % 0x100000000 = 0 + 0x100 * 0xFF + 0x10000 * 1 + 0x1000000 * 0xFF at bytes
    omega
  rw [same] at found
  exact ⟨short, ⟨outcome, failed, atomic.refused failed ▸ run⟩, found⟩

end Memory

end SchemaHighlighter
