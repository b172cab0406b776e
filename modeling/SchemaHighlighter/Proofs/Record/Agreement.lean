import SchemaHighlighter.Proofs.Record.ReadBack

/-! # Memories that agree

Two memories of one size need not hold the same bytes everywhere for a reader to find the same
in both. It is enough that they agree on what is read of the record and on what its views name. -/
namespace SchemaHighlighter

/-- The word that tells the first of the name's two words in the payload of a kind, if the kind
has a name. -/
def StatementKind.nameWord? : StatementKind → Option Nat
  | package | builtinTypeField => some 1
  | importing | component | transient | system | action | enum | enumValue => some 0
  | none | unknown | userTypeField | entityField | systemComponent | systemGenerates
  | systemWithEntity | entityConstraint => Option.none

/-- How many bytes of the payload a kind takes up. -/
def StatementKind.payloadSize : StatementKind → Nat
  | package | enumValue => 12
  | importing | component | transient | system | action | enum => 8
  | builtinTypeField => 16
  | none | unknown | userTypeField | entityField | systemComponent | systemGenerates
  | systemWithEntity | entityConstraint => 0

/-- The bytes of the payload that are read of a statement. A flag is one byte, and the three after
it are not looked at. -/
def StatementKind.Reads (kind : StatementKind) (i : Nat) : Prop :=
  i < kind.payloadSize ∧ ¬ (kind = package ∧ 0 < i ∧ i < 4)

instance (kind : StatementKind) (i : Nat) : Decidable (kind.Reads i) :=
  inferInstanceAs (Decidable (_ ∧ ¬ _))

theorem StatementKind.Reads.lt {kind : StatementKind} {i : Nat} (h : kind.Reads i) : i < 16 := by
  have inside := h.1
  cases kind <;> simp only [payloadSize] at inside <;> omega

theorem StatementKind.not_reads_none (i : Nat) : ¬ none.Reads i :=
  fun h => Nat.not_lt_zero i h.1

theorem signedWord_of_nonneg {n : Nat} (small : n < 0x100000000) (h : 0 ≤ signedWord n) :
    signedWord n = n := by
  rw [signedWord, Int.bmod_def] at h ⊢
  split at h <;> split <;> omega

namespace Memory

variable {m m' : Memory} {offset length base : Nat}

/-- Memories of one size that hold the same `length` bytes from `offset` on. -/
structure AgreeOn (m m' : Memory) (offset length : Nat) : Prop where
  size : m'.size = m.size
  bytes : ∀ i, i < length → m'.byteAt (offset + i) = m.byteAt (offset + i)

/-- What the view at `offset` names, if anything, lies in a region. -/
def LeadsInto (m : Memory) (offset first count : Nat) : Prop :=
  ∀ start length, m.readWord offset = .ok start → m.readWord (offset + 4) = .ok length →
    0 ≤ start → 0 < length → first ≤ start ∧ start + length ≤ first + count

namespace AgreeOn

theorem part {o n : Nat} (h : AgreeOn m m' offset length) (low : offset ≤ o)
    (high : o + n ≤ offset + length) : AgreeOn m m' o n := by
  refine ⟨h.size, ?_⟩
  intro i inside
  have same := h.bytes (o - offset + i) (by omega)
  rwa [show offset + (o - offset + i) = o + i by omega] at same

theorem refl (m : Memory) : AgreeOn m m offset length := ⟨rfl, fun _ _ => rfl⟩

theorem symm (h : AgreeOn m m' offset length) : AgreeOn m' m offset length :=
  ⟨h.size.symm, fun i inside => (h.bytes i inside).symm⟩

theorem trans {m'' : Memory} (h : AgreeOn m m' offset length) (h' : AgreeOn m' m'' offset length) :
    AgreeOn m m'' offset length :=
  ⟨h'.size.trans h.size, fun i inside => (h'.bytes i inside).trans (h.bytes i inside)⟩

theorem of_slice (size : m'.size = m.size) (fits : m.Fits offset length)
    (same : m'.slice offset length = m.slice offset length) : AgreeOn m m' offset length := by
  refine ⟨size, ?_⟩
  intro i inside
  have first : i < (m'.slice offset length).length := by rwa [length_slice (fits.of_size size)]
  have second : i < (m.slice offset length).length := by rwa [length_slice fits]
  rw [← getElem_slice first, ← getElem_slice second]
  exact getElem_congr_coll same

theorem of_outside {o : Nat} {bytes : List UInt8}
    (apart : offset + length ≤ o ∨ o + bytes.length ≤ offset) :
    AgreeOn m (m.store o bytes) offset length :=
  ⟨size_store .., fun i inside => byteAt_store_of_outside (by omega)⟩

/-- Memories that hold the same in what is read of a payload agree on each stretch of it. -/
theorem of_reads {kind : StatementKind} (low n : Nat) (size : m'.size = m.size)
    (payload : ∀ i, kind.Reads i → m'.byteAt (offset + i) = m.byteAt (offset + i))
    (reads : ∀ i, i < n → kind.Reads (low + i)) : AgreeOn m m' (offset + low) n := by
  refine ⟨size, ?_⟩
  intro i inside
  have same := payload (low + i) (reads i inside)
  rwa [← Nat.add_assoc] at same

theorem store (h : AgreeOn m m' offset length) (o : Nat) (bytes : List UInt8) :
    AgreeOn (m.store o bytes) (m'.store o bytes) offset length := by
  constructor
  · rw [size_store, size_store, h.size]
  · intro i inside
    rw [byteAt_store, byteAt_store, h.size, h.bytes i inside]

theorem store_outside {o : Nat} {bytes bytes' : List UInt8} (h : AgreeOn m m' offset length)
    (same : bytes'.length = bytes.length)
    (apart : offset + length ≤ o ∨ o + bytes.length ≤ offset) :
    AgreeOn (m.store o bytes) (m'.store o bytes') offset length := by
  constructor
  · rw [size_store, size_store, h.size]
  · intro i inside
    rw [byteAt_store_of_outside (by omega), byteAt_store_of_outside (by omega), h.bytes i inside]

theorem checkRange (h : AgreeOn m m' offset length) (o n : Nat) :
    m'.checkRange o n = m.checkRange o n := by
  have same : m'.Fits o n ↔ m.Fits o n := by rw [fits_iff, fits_iff, h.size]
  by_cases fits : m.Fits o n
  · simp only [Memory.checkRange, if_pos fits, if_pos (same.2 fits)]
  · simp only [Memory.checkRange, if_neg fits, if_neg (mt same.1 fits), h.size]

theorem readByte (h : AgreeOn m m' offset 1) : m'.readByte offset = m.readByte offset := by
  have first : m'.byteAt offset = m.byteAt offset := h.bytes 0 (by decide)
  rw [Memory.readByte, Memory.readByte, h.checkRange, first]

theorem readWord (h : AgreeOn m m' offset 4) : m'.readWord offset = m.readWord offset := by
  have first : m'.byteAt offset = m.byteAt offset := h.bytes 0 (by decide)
  rw [Memory.readWord, Memory.readWord, h.checkRange, first, h.bytes 1 (by decide),
    h.bytes 2 (by decide), h.bytes 3 (by decide)]

theorem slice {n : Nat} (h : AgreeOn m m' offset n) (fits : m.Fits offset n) :
    m'.slice offset n = m.slice offset n :=
  slice_congr h.size fits h.bytes

variable {first count : Nat}

/-- A view is read alike where the memories agree on it and on what it names. -/
theorem readSpan (record : AgreeOn m m' offset 8) (source : AgreeOn m m' first count)
    (leads : m.LeadsInto offset first count) (near : offset + 4 < 0x100000000) :
    m'.readSpan offset base = m.readSpan offset base := by
  have startSame := (record.part (n := 4) (Nat.le_refl _) (by omega)).readWord
  have lengthSame := (record.part (o := offset + 4) (n := 4) (by omega) (by omega)).readWord
  simp only [Memory.readSpan, addressAfter_ok near, startSame, lengthSame, bind, Except.bind]
  cases startRead : m.readWord offset with
  | error => rfl
  | ok start =>
    cases lengthRead : m.readWord (offset + 4) with
    | error => rfl
    | ok length =>
      by_cases negative : start < 0 ∨ length < 0
      · simp only [if_pos negative]
        rfl
      · have named : AgreeOn m m' start.toNat length.toNat := by
          by_cases empty : length = 0
          · -- a view of nothing may lead anywhere
            subst empty
            exact ⟨record.size, fun i none => absurd none (Nat.not_lt_zero i)⟩
          · have inside := leads start length startRead lengthRead (by omega) (by omega)
            exact source.part (by omega) (by omega)
        simp only [if_neg negative, record.checkRange]
        by_cases fits : m.Fits start.toNat length.toNat
        · rw [named.slice fits]
        · simp only [Memory.checkRange, if_neg fits]

theorem readStatus (record : AgreeOn m m' offset Status.recordSize)
    (source : AgreeOn m m' first count) (leads : m.LeadsInto (offset + 4) first count)
    (near : offset + Status.recordSize < 0x100000000) :
    Status.read m' offset base = Status.read m offset base := by
  simp only [Status.recordSize] at record near
  have code := (record.part (n := 4) (Nat.le_refl _) (by omega)).readWord
  have length := (record.part (o := offset + 8) (n := 4) (by omega) (by omega)).readWord
  have place : m'.readSpan (offset + 4) base = m.readSpan (offset + 4) base :=
    readSpan (record.part (by omega) (by omega)) source leads (by omega)
  have first : addressAfter offset 4 = .ok (offset + 4) := addressAfter_ok (by omega)
  have second : addressAfter offset 8 = .ok (offset + 8) := addressAfter_ok (by omega)
  simp only [Status.read, code, first, second, length, place, bind, Except.bind]

theorem readData {kind : StatementKind} (source : AgreeOn m m' first count)
    (payload : ∀ i, kind.Reads i → m'.byteAt (offset + i) = m.byteAt (offset + i))
    (leads : ∀ n ∈ kind.nameWord?, m.LeadsInto (offset + 4 * n) first count)
    (near : offset + 16 < 0x100000000) :
    StatementData.read m' kind offset base = StatementData.read m kind offset base := by
  have at4 : addressAfter offset 4 = .ok (offset + 4) := addressAfter_ok (by omega)
  have at8 : addressAfter offset 8 = .ok (offset + 8) := addressAfter_ok (by omega)
  have at12 : addressAfter offset 12 = .ok (offset + 12) := addressAfter_ok (by omega)
  have part (low n : Nat) (reads : ∀ i, i < n → kind.Reads (low + i)) :
      AgreeOn m m' (offset + low) n := of_reads low n source.size payload reads
  have named : ∀ n ∈ kind.nameWord?, n ≤ 1 → (∀ i, i < 8 → kind.Reads (4 * n + i)) →
      m'.readSpan (offset + 4 * n) base = m.readSpan (offset + 4 * n) base := by
    intro n has early reads
    exact readSpan (part (4 * n) 8 reads) source (leads n has) (by omega)
  cases kind with
  | none | unknown | userTypeField | entityField | systemComponent | systemGenerates
  | systemWithEntity | entityConstraint => rfl
  | importing | component | transient | system | action | enum =>
    have name := named 0 rfl (by decide) (by decide)
    rw [Nat.mul_zero, Nat.add_zero] at name
    simp only [StatementData.read, name]
  | package =>
    have name := named 1 rfl (by decide) (by decide)
    have main := (part 0 1 (by decide)).readByte
    simp only [Nat.add_zero] at main
    simp only [StatementData.read, at4, main, name, bind, Except.bind]
  | enumValue =>
    have name := named 0 rfl (by decide) (by decide)
    rw [Nat.mul_zero, Nat.add_zero] at name
    have value := (part 8 4 (by decide)).readWord
    simp only [StatementData.read, at8, name, value, bind, Except.bind]
  | builtinTypeField =>
    have name := named 1 rfl (by decide) (by decide)
    have type := (part 0 4 (by decide)).readWord
    have size := (part 12 4 (by decide)).readWord
    simp only [Nat.add_zero] at type
    simp only [StatementData.read, at4, at12, name, type, size, bind, Except.bind]

/-- What is read behind the id of a statement, where its kind is told and its payload begins. -/
theorem readData_of_kind (base : Nat) (source : AgreeOn m m' first count)
    (payload : ∀ raw, m.readWord (offset + 4) = .ok raw → ∀ i, (StatementKind.ofRaw raw).Reads i →
      m'.byteAt (offset + 8 + i) = m.byteAt (offset + 8 + i))
    (leads : ∀ raw, m.readWord (offset + 4) = .ok raw →
      ∀ n ∈ (StatementKind.ofRaw raw).nameWord?, m.LeadsInto (offset + 8 + 4 * n) first count)
    (near : offset + Statement.recordSize < 0x100000000) :
    ∀ raw, m.readWord (offset + 4) = .ok raw →
      StatementData.read m' (StatementKind.ofRaw raw) (offset + 8) base =
        StatementData.read m (StatementKind.ofRaw raw) (offset + 8) base := by
  simp only [Statement.recordSize] at near
  intro raw read
  exact readData source (payload raw read) (leads raw read) (by omega)

/-- A statement is read alike where the memories agree on its header and on what is read of its
payload. -/
theorem readStatement (header : AgreeOn m m' offset 8) (source : AgreeOn m m' first count)
    (payload : ∀ raw, m.readWord (offset + 4) = .ok raw → ∀ i, (StatementKind.ofRaw raw).Reads i →
      m'.byteAt (offset + 8 + i) = m.byteAt (offset + 8 + i))
    (leads : ∀ raw, m.readWord (offset + 4) = .ok raw →
      ∀ n ∈ (StatementKind.ofRaw raw).nameWord?, m.LeadsInto (offset + 8 + 4 * n) first count)
    (near : offset + Statement.recordSize < 0x100000000) :
    Statement.read m' offset base = Statement.read m offset base := by
  have data := readData_of_kind base source payload leads near
  simp only [Statement.recordSize] at near
  have id := (header.part (n := 4) (Nat.le_refl _) (by omega)).readWord
  have kind := (header.part (o := offset + 4) (n := 4) (by omega) (by omega)).readWord
  have at4 : addressAfter offset 4 = .ok (offset + 4) := addressAfter_ok (by omega)
  have at8 : addressAfter offset 8 = .ok (offset + 8) := addressAfter_ok (by omega)
  simp only [Statement.read, id, kind, at4, at8, bind, Except.bind]
  cases kindRead : m.readWord (offset + 4) with
  | error => rfl
  | ok raw => simp only [data raw kindRead]

/-- All but the id of a statement is read alike where the memories agree on all but its id. -/
theorem readStatement_withoutId (record : AgreeOn m m' (offset + 4) 60)
    (source : AgreeOn m m' first count)
    (leads : ∀ raw, m.readWord (offset + 4) = .ok raw →
      ∀ n ∈ (StatementKind.ofRaw raw).nameWord?, m.LeadsInto (offset + 8 + 4 * n) first count)
    (near : offset + Statement.recordSize < 0x100000000) (aligned : offset % 4 = 0)
    (fits : m.Fits offset Statement.recordSize) :
    (Statement.read m' offset base).map (fun s => { s with id := 0 }) =
      (Statement.read m offset base).map fun s => { s with id := 0 } := by
  have payload : ∀ raw, m.readWord (offset + 4) = .ok raw →
      ∀ i, (StatementKind.ofRaw raw).Reads i →
        m'.byteAt (offset + 8 + i) = m.byteAt (offset + 8 + i) := by
    intro _ _ i reads
    exact (record.part (o := offset + 8) (n := 16) (by omega) (by omega)).bytes i reads.lt
  have data := readData_of_kind base source payload leads near
  simp only [Statement.recordSize] at near
  have id : m.Fits offset 4 := fits.part (Nat.add_le_add_left (by decide) _)
  have id' : m'.Fits offset 4 := id.of_size record.size
  have kind := (record.part (n := 4) (Nat.le_refl _) (by omega)).readWord
  have at4 : addressAfter offset 4 = .ok (offset + 4) := addressAfter_ok (by omega)
  have at8 : addressAfter offset 8 = .ok (offset + 8) := addressAfter_ok (by omega)
  simp only [Statement.read, readWord_eq aligned id, readWord_eq aligned id', at4, at8, kind,
    bind, Except.bind]
  cases kindRead : m.readWord (offset + 4) with
  | error => rfl
  | ok raw =>
    simp only [data raw kindRead]
    cases StatementData.read m (StatementKind.ofRaw raw) (offset + 8) base <;>
      simp only [Except.map, pure, Except.pure]

end AgreeOn

theorem leadsInto_of_clear (clear : m.readWord (offset + 4) = .ok 0) (first count : Nat) :
    m.LeadsInto offset first count := by
  intro start length _ lengthRead _ positive
  rw [clear] at lengthRead
  cases lengthRead
  exact absurd positive (Int.lt_irrefl 0)

theorem leadsInto_of_span? {input : List UInt8} {v : View} (small : m.size < 0x100000000)
    (fits : m.Fits base input.length) (inside : (v.span? input).isSome)
    (words : m.HoldsWords offset (v.toWords base)) : m.LeadsInto offset base input.length := by
  intro start length startRead lengthRead nonneg positive
  rw [fits_iff] at fits
  cases v with
  | words => cases inside
  | within first count =>
    simp only [View.span?] at inside
    split at inside
    case isFalse => cases inside
    case isTrue bound =>
      rw [words.1, Except.ok.injEq] at startRead
      rw [words.2.1, Except.ok.injEq] at lengthRead
      rw [← startRead] at nonneg ⊢
      rw [← lengthRead] at positive ⊢
      rw [signedWord_of_nonneg (by omega) nonneg,
        signedWord_of_nonneg (by omega) (Int.le_of_lt positive)]
      omega

end Memory

end SchemaHighlighter
