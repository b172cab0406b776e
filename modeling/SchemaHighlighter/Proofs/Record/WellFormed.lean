import SchemaHighlighter.Proofs.Record.Agreement

/-! # Well-formed records

When a record can be read, and what is then read from its bytes. Nothing is asked of the bytes
that the kind of a statement or the code of a status leaves out of account. -/
namespace SchemaHighlighter

theorem exists_of_bind {α β : Type} {x : Except AccessError α} {f : α → Except AccessError β}
    {b : β} (h : x >>= f = .ok b) : ∃ a, x = .ok a ∧ f a = .ok b := by
  cases x with
  | error e => cases h
  | ok a => exact ⟨a, rfl, h⟩

theorem eq_ok_of_toOption {ε α : Type} {x : Except ε α} {a : α} (h : x.toOption = some a) :
    x = .ok a := by
  cases x with
  | error e => cases h
  | ok b => exact congrArg _ (Option.some.inj h)

theorem eq_of_addressAfter {offset distance next : Nat}
    (h : addressAfter offset distance = .ok next) : next = offset + distance := by
  rw [addressAfter] at h
  split at h
  · exact (Except.ok.inj h).symm
  · cases h

theorem toNat_ofNat_byte (b : UInt8) : (Char.ofNat b.toNat).toNat = b.toNat := by
  have small := b.toNat_lt
  have valid : b.toNat.isValidChar := .inl (by omega)
  rw [Char.ofNat, dif_pos valid]
  exact UInt32.toNat_ofNatLT

namespace Memory

variable {m : Memory} {offset base : Nat}

/-- The view at an address lies in the memory, and so do the bytes that it names. -/
structure ViewFits (m : Memory) (offset : Nat) : Prop where
  record : m.Fits offset 8
  start : 0 ≤ m.wordAt offset
  length : 0 ≤ m.wordAt (offset + 4)
  bytes : m.wordAt offset + m.wordAt (offset + 4) ≤ m.size

/-- The span has one character for each byte that the view at `offset` names. -/
structure Names (m : Memory) (offset base : Nat) (span : SourceSpan) : Prop where
  length : span.value.length = m.wordAt (offset + 4)
  character : ∀ i (inside : i < span.value.length),
    span.value[i].toNat = (m.byteAt ((m.wordAt offset).toNat + i)).toNat
  offset : span.offset = max (m.wordAt offset - base) 0

theorem ViewFits.stop_le {span : SourceSpan} (fits : m.ViewFits offset)
    (names : m.Names offset base span) : span.stop ≤ m.size := by
  have length := names.length
  have start := names.offset
  have inside := fits.bytes
  have nonneg := fits.start
  rw [SourceSpan.stop]
  omega

theorem of_readSpan {span : SourceSpan} (h : m.readSpan offset base = .ok span) :
    ∃ start length, m.readWord offset = .ok start ∧ m.readWord (offset + 4) = .ok length ∧
      ¬ (start < 0 ∨ length < 0) ∧ m.Fits start.toNat length.toNat ∧
      span = m.spanOf base start length := by
  obtain ⟨start, startRead, h⟩ := exists_of_bind h
  obtain ⟨next, address, h⟩ := exists_of_bind h
  obtain ⟨length, lengthRead, h⟩ := exists_of_bind h
  rw [eq_of_addressAfter address] at lengthRead
  by_cases negative : start < 0 ∨ length < 0
  · simp only [if_pos negative] at h
    cases h
  · simp only [if_neg negative] at h
    obtain ⟨⟨⟩, named, h⟩ := exists_of_bind h
    exact ⟨start, length, startRead, lengthRead, negative, checkRange_eq_ok_iff.1 named,
      (Except.ok.inj h).symm⟩

theorem names_spanOf (startWord : 0 ≤ m.wordAt offset) (lengthWord : 0 ≤ m.wordAt (offset + 4))
    (named : m.Fits (m.wordAt offset).toNat (m.wordAt (offset + 4)).toNat) :
    m.Names offset base (m.spanOf base (m.wordAt offset) (m.wordAt (offset + 4))) := by
  have count := length_slice named
  constructor
  · rw [spanOf, List.length_map, count, Int.toNat_of_nonneg lengthWord]
  · intro i inside
    simp only [spanOf, List.getElem_map, getElem_slice, toNat_ofNat_byte]
  · simp only [spanOf]
    omega

theorem viewFits_of_readSpan {span : SourceSpan} (h : m.readSpan offset base = .ok span) :
    offset % 4 = 0 ∧ m.ViewFits offset ∧ m.Names offset base span := by
  obtain ⟨start, length, startRead, lengthRead, nonneg, named, same⟩ := of_readSpan h
  obtain ⟨aligned, startFits, startWord⟩ := readWord_eq_ok_iff.1 startRead
  obtain ⟨-, lengthFits, lengthWord⟩ := readWord_eq_ok_iff.1 lengthRead
  rw [startWord, lengthWord] at nonneg named same
  have inside := fits_iff.1 named
  rw [fits_iff] at lengthFits
  refine ⟨aligned, ⟨?_, ?_, ?_, ?_⟩, ?_⟩
  · rw [fits_iff]
    omega
  · omega
  · omega
  · omega
  · rw [same]
    exact names_spanOf (by omega) (by omega) named

theorem of_readByte {b : UInt8} (h : m.readByte offset = .ok b) :
    m.Fits offset 1 ∧ b = m.byteAt offset := by
  obtain ⟨⟨⟩, inside, h⟩ := exists_of_bind h
  exact ⟨checkRange_eq_ok_iff.1 inside, (Except.ok.inj h).symm⟩

end Memory

/-- The kind that goes with a raw code. Every code that is not in use is unknown. -/
def StatementKind.HasCode (kind : StatementKind) (raw : Int) : Prop :=
  (0 ≤ raw → raw ≤ 16 → kind.toRaw = raw) ∧ (raw < 0 ∨ 16 < raw → kind = unknown)

/-- The status code that goes with a raw code. Every code that is not in use is a syntax error. -/
def StatusCode.HasCode (code : StatusCode) (raw : Int) : Prop :=
  (0 ≤ raw → raw ≤ 5 → code.toRaw = raw) ∧ (raw < 0 ∨ 5 < raw → code = syntaxError)

/-- What the payload at `offset` says. -/
def StatementData.Tells (m : Memory) (offset base : Nat) : StatementData → Prop
  | package isMain name =>
    (isMain = true ↔ m.byteAt offset ≠ 0) ∧ m.Names (offset + 4) base name
  | importing name => m.Names offset base name
  | definition _ name => m.Names offset base name
  | enumValue name value => m.Names offset base name ∧ value = m.wordAt (offset + 8)
  | field type name length =>
    type = BuiltinType.ofRaw? (m.wordAt offset) ∧ m.Names (offset + 4) base name ∧
      length = m.wordAt (offset + 12)
  | bare _ => True

namespace Statement

/-- The record at `offset` can be read as a statement. -/
structure WellFormed (m : Memory) (offset : Nat) : Prop where
  aligned : offset % 4 = 0
  record : m.Fits offset (8 + (StatementKind.ofRaw (m.wordAt (offset + 4))).payloadSize)
  name : ∀ n ∈ (StatementKind.ofRaw (m.wordAt (offset + 4))).nameWord?,
    m.ViewFits (offset + 8 + 4 * n)

/-- The statement that the record at `offset` holds. -/
structure HeldAt (m : Memory) (offset base : Nat) (s : Statement) : Prop where
  id : s.id = m.wordAt offset
  kind : s.kind.HasCode (m.wordAt (offset + 4))
  data : s.data.Tells m (offset + 8) base

end Statement

namespace Status

/-- The record at `offset` can be read as a status. -/
structure WellFormed (m : Memory) (offset : Nat) : Prop where
  aligned : offset % 4 = 0
  code : m.Fits offset 4
  length : (StatusCode.ofRaw (m.wordAt offset)).isTerminal = true → m.Fits (offset + 8) 4
  location : (StatusCode.ofRaw (m.wordAt offset)).isTerminal = true →
    0 < m.wordAt (offset + 8) → m.ViewFits (offset + 4)

/-- The status that the record at `offset` holds. -/
structure HeldAt (m : Memory) (offset base : Nat) (s : Status) : Prop where
  code : s.code.HasCode (m.wordAt offset)
  location : s.code.isTerminal = true → 0 < m.wordAt (offset + 8) →
    m.Names (offset + 4) base s.errorLocation
  noLocation : s.code.isTerminal = false ∨ m.wordAt (offset + 8) ≤ 0 → s.errorLocation = {}

end Status

theorem StatementKind.hasCode_ofRaw (raw : Int) : (ofRaw raw).HasCode raw := by
  constructor
  · intro low high
    obtain ⟨n, rfl⟩ := Int.eq_ofNat_of_zero_le low
    have each : ∀ n : Fin 17, (ofRaw n.val).toRaw = n.val := by decide
    exact each ⟨n, by omega⟩
  · intro unused
    have count : all.length = 17 := rfl
    rw [ofRaw]
    split
    · rfl
    · rw [List.getD_eq_getElem?_getD, List.getElem?_eq_none (by omega)]
      rfl

theorem StatusCode.hasCode_ofRaw (raw : Int) : (ofRaw raw).HasCode raw := by
  constructor
  · intro low high
    obtain ⟨n, rfl⟩ := Int.eq_ofNat_of_zero_le low
    have each : ∀ n : Fin 6, (ofRaw n.val).toRaw = n.val := by decide
    exact each ⟨n, by omega⟩
  · intro unused
    rw [ofRaw, if_neg (by omega), if_neg (by omega), if_neg (by omega), if_neg (by omega),
      if_neg (by omega)]

/-- No other status code goes with the raw code. -/
theorem StatusCode.HasCode.eq_ofRaw {code : StatusCode} {raw : Int} (h : code.HasCode raw) :
    code = ofRaw raw := by
  by_cases used : 0 ≤ raw ∧ raw ≤ 5
  · rw [← h.1 used.1 used.2, ofRaw_toRaw]
  · rw [h.2 (by omega), (hasCode_ofRaw raw).2 (by omega)]

section

variable {m : Memory} {offset base : Nat} {kind : StatementKind}

theorem of_readData {data : StatementData}
    (h : StatementData.read m kind offset base = .ok data) :
    (0 < kind.payloadSize → m.Fits offset kind.payloadSize) ∧
      (∀ n ∈ kind.nameWord?, m.ViewFits (offset + 4 * n)) ∧ data.kind = kind ∧
      data.Tells m offset base := by
  cases kind with
  | none | unknown | userTypeField | entityField | systemComponent | systemGenerates
  | systemWithEntity | entityConstraint =>
    cases h
    exact ⟨nofun, nofun, rfl, trivial⟩
  | importing | component | transient | system | action | enum =>
    obtain ⟨name, read, h⟩ := exists_of_bind h
    cases h
    obtain ⟨-, view, names⟩ := Memory.viewFits_of_readSpan read
    refine ⟨fun _ => view.record, ?_, rfl, names⟩
    rintro _ ⟨⟩
    exact view
  | package =>
    obtain ⟨main, mainRead, h⟩ := exists_of_bind h
    obtain ⟨next, address, h⟩ := exists_of_bind h
    obtain ⟨name, read, h⟩ := exists_of_bind h
    cases h
    rw [eq_of_addressAfter address] at read
    obtain ⟨-, view, names⟩ := Memory.viewFits_of_readSpan read
    obtain ⟨-, same⟩ := Memory.of_readByte mainRead
    refine ⟨fun _ => view.record.part (Nat.le_refl (offset + 12)), ?_, rfl, ?_, names⟩
    · rintro _ ⟨⟩
      exact view
    · rw [same, bne_iff_ne]
  | enumValue =>
    obtain ⟨name, read, h⟩ := exists_of_bind h
    obtain ⟨next, address, h⟩ := exists_of_bind h
    obtain ⟨value, valueRead, h⟩ := exists_of_bind h
    cases h
    rw [eq_of_addressAfter address] at valueRead
    obtain ⟨-, view, names⟩ := Memory.viewFits_of_readSpan read
    obtain ⟨-, last, same⟩ := Memory.readWord_eq_ok_iff.1 valueRead
    refine ⟨fun _ => last.part (Nat.le_refl (offset + 12)), ?_, rfl, names, same⟩
    rintro _ ⟨⟩
    exact view
  | builtinTypeField =>
    obtain ⟨type, typeRead, h⟩ := exists_of_bind h
    obtain ⟨next, address, h⟩ := exists_of_bind h
    obtain ⟨name, read, h⟩ := exists_of_bind h
    obtain ⟨last, address', h⟩ := exists_of_bind h
    obtain ⟨length, lengthRead, h⟩ := exists_of_bind h
    cases h
    rw [eq_of_addressAfter address] at read
    rw [eq_of_addressAfter address'] at lengthRead
    obtain ⟨-, -, first⟩ := Memory.readWord_eq_ok_iff.1 typeRead
    obtain ⟨-, view, names⟩ := Memory.viewFits_of_readSpan read
    obtain ⟨-, last, same⟩ := Memory.readWord_eq_ok_iff.1 lengthRead
    refine ⟨fun _ => last.part (Nat.le_refl (offset + 16)), ?_, rfl, ?_, names, same⟩
    · rintro _ ⟨⟩
      exact view
    · rw [first]

end

end SchemaHighlighter
