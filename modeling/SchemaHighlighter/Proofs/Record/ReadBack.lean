import SchemaHighlighter.Proofs.Memory.Words

/-! # Records read back

What was written in the two records of a call is read as what it means. The words of an
answer stand where the records are read, and its views lead back into the input. -/
namespace SchemaHighlighter

variable {m : Memory} {base offset : Nat} {input : List UInt8}

/-- The input and its terminator lie at `base`, and every address has a signed word. -/
structure Memory.HoldsInput (m : Memory) (base : Nat) (input : List UInt8) : Prop where
  small : m.size ≤ 0x80000000
  fits : m.Fits base (input.length + 1)
  bytes : m.slice base input.length = input

theorem addressAfter_ok {distance : Nat} (h : offset + distance < 0x100000000) :
    addressAfter offset distance = .ok (offset + distance) := if_pos h

/-- The span that is read of a view with these two words. -/
def Memory.spanOf (m : Memory) (base : Nat) (start length : Int) : SourceSpan where
  value := (m.slice start.toNat length.toNat).map fun b => Char.ofNat b.toNat
  offset := start.toNat - base

theorem Memory.readSpan_eq {start length : Int} (near : offset + 4 < 0x100000000)
    (startRead : m.readWord offset = .ok start) (lengthRead : m.readWord (offset + 4) = .ok length)
    (nonneg : ¬ (start < 0 ∨ length < 0)) (named : m.Fits start.toNat length.toNat) :
    m.readSpan offset base = .ok (m.spanOf base start length) := by
  simp only [readSpan, startRead, addressAfter_ok near, lengthRead, bind, Except.bind,
    if_neg nonneg, checkRange, if_pos named]
  rfl

theorem View.length_toWords (v : View) : (v.toWords base).length = 2 := by
  cases v <;> rfl

theorem readSpan_of_span? {v : View} {span : SourceSpan} (held : m.HoldsInput base input)
    (near : offset + 4 < 0x100000000) (h : v.span? input = some span)
    (words : m.HoldsWords offset (v.toWords base)) : m.readSpan offset base = .ok span := by
  cases v with
  | words start length => cases h
  | within start length =>
    simp only [View.span?] at h
    split at h
    case isFalse => cases h
    case isTrue within =>
      have small := held.small
      have fits := Memory.fits_iff.1 held.fits
      have startWord : signedWord (base + start : Nat) = (base + start : Nat) :=
        signedWord_of_range (by omega) (by omega)
      have lengthWord : signedWord (length : Int) = length :=
        signedWord_of_range (by omega) (by omega)
      simp only [View.toWords, Memory.holdsWords_cons, startWord, lengthWord] at words
      have inside : m.Fits (base + start) length := held.fits.part (by omega)
      have nonneg : ¬ (((base + start : Nat) : Int) < 0 ∨ (length : Int) < 0) := by omega
      have part : ((input.drop start).take length) = m.slice (base + start) length := by
        have whole : m.Fits base input.length := held.fits.part (by omega)
        rw [← Memory.take_drop_slice whole within, held.bytes]
      rw [Memory.readSpan_eq near words.1 words.2.1 nonneg inside]
      cases h
      simp only [Memory.spanOf, Int.toNat_natCast, part, Nat.add_sub_cancel_left]

theorem readWord_of_span? {v : View} {span : SourceSpan} (held : m.HoldsInput base input)
    (h : v.span? input = some span) (words : m.HoldsWords offset (v.toWords base)) :
    m.readWord (offset + 4) = .ok (span.value.length : Int) := by
  cases v with
  | words start length => cases h
  | within start length =>
    simp only [View.span?] at h
    split at h
    case isFalse => cases h
    case isTrue within =>
      have small := held.small
      have fits := Memory.fits_iff.1 held.fits
      have valueLength : span.value.length = length := by
        cases h
        simp only [List.length_map, List.length_take, List.length_drop]
        omega
      rw [words.2.1, signedWord_of_range (by omega) (by omega), valueLength]

theorem Status.code_of_read {s : Status} {raw : Int} (read : Status.read m offset base = .ok s)
    (word : m.readWord offset = .ok raw) : s.code = StatusCode.ofRaw raw := by
  simp only [Status.read, word, bind, Except.bind, pure, Except.pure] at read
  repeat' split at read
  all_goals cases read
  all_goals rfl

/-- The status record of an answer is read as its status. The length of a place that was not
written has to be clear. -/
theorem read_status {a : Answer} {status : Status} (held : m.HoldsInput base input)
    (near : offset + 12 < 0x100000000) (code : signedWord a.code = a.code)
    (h : a.status? input = some status) (words : m.HoldsWords offset (a.statusWords base))
    (clear : a.location = none → m.readWord (offset + 8) = .ok 0) :
    Status.read m offset base = .ok status := by
  simp only [Answer.statusWords, Memory.holdsWords_cons, code] at words
  obtain ⟨codeRead, places⟩ := words
  have first : addressAfter offset 4 = .ok (offset + 4) := addressAfter_ok (by omega)
  have second : addressAfter offset 8 = .ok (offset + 8) := addressAfter_ok (by omega)
  simp only [Answer.status?] at h
  simp only [Status.read, codeRead, first, second, bind, Except.bind]
  cases resumable : (StatusCode.ofRaw a.code).isResumable with
  | true =>
    simp only [resumable, true_or, if_true] at h ⊢
    cases location : a.location with
    | none =>
      simp only [location, Option.some.injEq] at h
      rw [h]
      rfl
    | some v =>
      simp only [location, Option.map_eq_some_iff] at h
      obtain ⟨_, _, rfl⟩ := h
      rfl
  | false =>
    simp only [Bool.false_eq_true, resumable, false_or, if_false] at h ⊢
    cases location : a.location with
    | none =>
      simp only [location, Option.some.injEq] at h
      simp only [clear location, ← h]
      rfl
    | some v =>
      simp only [location, Option.map_some, Option.getD_some] at h places
      obtain ⟨span, found, rfl⟩ := Option.map_eq_some_iff.1 h
      have read := readSpan_of_span? held (by omega) found places
      have lengthRead : m.readWord (offset + 8) = .ok (span.value.length : Int) :=
        readWord_of_span? held found places
      simp only [lengthRead, read]
      by_cases empty : span.value = []
      · rw [if_pos empty, if_neg (by simp [empty])]
        rfl
      · have positive := List.length_pos_iff.2 empty
        rw [if_neg empty, if_pos (by omega)]
        rfl

theorem holdsWords_flatMap_cons {f : Field} {fields : List Field} :
    m.HoldsWords offset ((f :: fields).flatMap (Field.toWords base)) ↔
      m.HoldsWords offset (f.toWords base) ∧
      m.HoldsWords (offset + 4 * (f.toWords base).length)
        (fields.flatMap (Field.toWords base)) := by
  rw [List.flatMap_cons, Memory.holdsWords_append]

theorem readSpan_of_name {v : View} {fields : List Field} {span : SourceSpan}
    (held : m.HoldsInput base input) (near : offset + 4 < 0x100000000)
    (h : v.span? input = some span)
    (words : m.HoldsWords offset ((Field.view v :: fields).flatMap (Field.toWords base))) :
    m.readSpan offset base = .ok span ∧
      m.HoldsWords (offset + 8) (fields.flatMap (Field.toWords base)) := by
  have two : (Field.toWords base (.view v)).length = 2 := View.length_toWords v
  rw [holdsWords_flatMap_cons, two] at words
  exact ⟨readSpan_of_span? held near h words.1, words.2⟩

theorem read_statementData {d : Draft} {data : StatementData} (held : m.HoldsInput base input)
    (near : offset + 16 < 0x100000000) (h : d.meaning? input = some data)
    (words : m.HoldsWords offset (d.payload.flatMap (Field.toWords base))) :
    StatementData.read m (StatementKind.ofRaw d.kind) offset base = .ok data := by
  have first : addressAfter offset 4 = .ok (offset + 4) := addressAfter_ok (by omega)
  have second : addressAfter offset 8 = .ok (offset + 8) := addressAfter_ok (by omega)
  have third : addressAfter offset 12 = .ok (offset + 12) := addressAfter_ok (by omega)
  rw [Draft.meaning?] at h
  cases kind : StatementKind.ofRaw d.kind <;> simp only [kind] at h
  case none | unknown | userTypeField | entityField | systemComponent | systemGenerates
      | systemWithEntity | entityConstraint =>
    cases h
    rfl
  case importing | component | transient | system | action | enum =>
    split at h
    case h_2 => cases h
    case h_1 name payload =>
      obtain ⟨span, found, rfl⟩ := Option.map_eq_some_iff.1 h
      rw [payload] at words
      have read := (readSpan_of_name held (by omega) found words).1
      simp only [StatementData.read, read, bind, Except.bind]
      rfl
  case package =>
    split at h
    case h_2 => cases h
    case h_1 isMain name payload =>
      obtain ⟨span, found, rfl⟩ := Option.map_eq_some_iff.1 h
      rw [payload, holdsWords_flatMap_cons] at words
      obtain ⟨flag, flagRead, remainder⟩ := Memory.readByte_of_readWord words.1.1
      have read := (readSpan_of_name held (by simp [Field.toWords]; omega) found words.2).1
      simp only [Field.toWords, List.length_singleton, Nat.mul_one] at read
      have same : (flag != 0) = (isMain % 0x100 != 0) := by
        rw [signedWord_emod] at remainder
        rw [remainder, Bool.eq_iff_iff, bne_iff_ne, bne_iff_ne, Ne, Ne, ← UInt8.toNat_inj]
        exact not_congr Int.natCast_eq_zero.symm
      simp only [StatementData.read, flagRead, first, read, bind, Except.bind, same]
      rfl
  case enumValue =>
    split at h
    case h_2 => cases h
    case h_1 name value payload =>
      obtain ⟨span, found, rfl⟩ := Option.map_eq_some_iff.1 h
      rw [payload] at words
      obtain ⟨read, rest⟩ := readSpan_of_name held (by omega) found words
      simp only [List.flatMap_cons, Field.toWords, List.cons_append, Memory.holdsWords_cons] at rest
      simp only [StatementData.read, read, second, rest.1, bind, Except.bind]
      rfl
  case builtinTypeField =>
    split at h
    case h_2 => cases h
    case h_1 type name length payload =>
      obtain ⟨span, found, rfl⟩ := Option.map_eq_some_iff.1 h
      rw [payload, holdsWords_flatMap_cons] at words
      obtain ⟨read, rest⟩ := readSpan_of_name held (by simp [Field.toWords]; omega) found words.2
      simp only [Field.toWords, List.length_singleton, Nat.mul_one, List.flatMap_cons,
        List.cons_append, Memory.holdsWords_cons] at read rest words
      simp only [StatementData.read, words.1.1, first, third, read, rest.1, bind, Except.bind]
      rfl

theorem read_statement {d : Draft} {data : StatementData} (held : m.HoldsInput base input)
    (near : offset + 24 < 0x100000000) (kind : signedWord d.kind = d.kind)
    (h : d.meaning? input = some data)
    (words : m.HoldsWords offset (d.id :: d.kind :: d.payload.flatMap (Field.toWords base))) :
    Statement.read m offset base = .ok { id := signedWord d.id, data } := by
  obtain ⟨idRead, kindRead, payload⟩ := words
  rw [kind] at kindRead
  have read := read_statementData held (by omega) h payload
  have first : addressAfter offset 4 = .ok (offset + 4) := addressAfter_ok (by omega)
  have second : addressAfter offset 8 = .ok (offset + 8) := addressAfter_ok (by omega)
  simp only [Statement.read, idRead, first, kindRead, second, read, bind, Except.bind]
  rfl

end SchemaHighlighter
