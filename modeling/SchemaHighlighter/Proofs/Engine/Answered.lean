import SchemaHighlighter.Proofs.Engine.Prepared
import SchemaHighlighter.Proofs.Record.Agreement

/-! # What a call leaves

An entry point tells its answer in the two records of a prepared call. It need not write them word
for word: what nobody reads of them may hold anything, and so may all of the memory beside them and
the input. What is read back is what the answer means all the same. -/
namespace SchemaHighlighter

/-- The raw codes are signed words, and the statement does not outgrow its record. -/
structure Answer.Encodable (a : Answer) : Prop where
  code : signedWord a.code = a.code
  kind : ∀ d ∈ a.statement, signedWord d.kind = d.kind
  statement : ∀ base, 4 * (a.statementWords base).length ≤ Statement.recordSize

/-- The name of the draft, if its kind has one, stands where a name is read and lies in the
input. -/
def Draft.NamesIn (input : List UInt8) (d : Draft) : Prop :=
  ∀ n ∈ (StatementKind.ofRaw d.kind).nameWord?, ∃ (words : List Int) (name : View)
    (rest : List Field), d.payload = words.map .word ++ .view name :: rest ∧ words.length = n ∧
      (name.span? input).isSome

/-- All that an answer names lies in the input. -/
structure Answer.ViewsInto (input : List UInt8) (a : Answer) : Prop where
  location : ∀ v ∈ a.location, (v.span? input).isSome
  name : ∀ d ∈ a.statement, d.NamesIn input

theorem Answer.length_statusWords_le (a : Answer) (base : Nat) :
    4 * (a.statusWords base).length ≤ Status.recordSize := by
  cases location : a.location with
  | none => simp [statusWords, location, Status.recordSize]
  | some v => simp [statusWords, location, Status.recordSize, View.length_toWords]

theorem Memory.readWord_of_zeros {m : Memory} {offset length distance : Nat}
    (zeros : m.slice offset length = List.replicate length 0) (fits : m.Fits offset length)
    (aligned : (offset + distance) % 4 = 0) (inside : distance + 4 ≤ length) :
    m.readWord (offset + distance) = .ok 0 := by
  have part := take_drop_slice fits inside
  have zero : List.replicate 4 (0 : UInt8) = bytesOfWord 0 := rfl
  rw [zeros, List.drop_replicate, List.take_replicate, Nat.min_eq_left (by omega), zero] at part
  exact readWord_of_slice aligned (fits.part (by omega)) part.symm

/-- The memory of a call once its answer is written word for word. -/
def Answer.written (a : Answer) (call : ParseCall) (m : Memory) : Memory :=
  a.store call.input call.status call.statement m

section

variable {m m' after : Memory} {call : ParseCall} {input : List UInt8} {a : Answer}

theorem Draft.namesIn_of_meaning? {d : Draft} {data : StatementData}
    (means : d.meaning? input = some data) : d.NamesIn input := by
  intro n named
  rw [Draft.meaning?] at means
  cases kind : StatementKind.ofRaw d.kind <;> simp only [kind] at means named
  case none | unknown | userTypeField | entityField | systemComponent | systemGenerates
      | systemWithEntity | entityConstraint => cases named
  case importing | component | transient | system | action | enum =>
    cases named
    split at means
    case h_2 => cases means
    case h_1 name payload =>
      obtain ⟨span, found, -⟩ := Option.map_eq_some_iff.1 means
      exact ⟨[], name, [], payload, rfl, Option.isSome_of_eq_some found⟩
  case package =>
    cases named
    split at means
    case h_2 => cases means
    case h_1 flag name payload =>
      obtain ⟨span, found, -⟩ := Option.map_eq_some_iff.1 means
      exact ⟨[flag], name, [], payload, rfl, Option.isSome_of_eq_some found⟩
  case enumValue =>
    cases named
    split at means
    case h_2 => cases means
    case h_1 name value payload =>
      obtain ⟨span, found, -⟩ := Option.map_eq_some_iff.1 means
      exact ⟨[], name, [.word value], payload, rfl, Option.isSome_of_eq_some found⟩
  case builtinTypeField =>
    cases named
    split at means
    case h_2 => cases means
    case h_1 type name length payload =>
      obtain ⟨span, found, -⟩ := Option.map_eq_some_iff.1 means
      exact ⟨[type], name, [.word length], payload, rfl, Option.isSome_of_eq_some found⟩

/-- An answer that has a meaning names nothing outside the input. -/
theorem Answer.viewsInto_of_meaning? {result : ParseResult}
    (means : a.meaning? input = some result) :
    a.ViewsInto input := by
  obtain ⟨status, statusMeans, rest⟩ := Option.bind_eq_some_iff.1 means
  obtain ⟨statement, statementMeans, -⟩ := Option.bind_eq_some_iff.1 rest
  constructor
  · intro v is
    rw [status?, Option.mem_def.1 is] at statusMeans
    obtain ⟨span, found, -⟩ := Option.map_eq_some_iff.1 statusMeans
    exact Option.isSome_of_eq_some found
  · intro d is
    rw [statement?, Option.mem_def.1 is] at statementMeans
    split at statementMeans
    case h_1 same _ =>
      cases same
      obtain ⟨data, dataMeans, -⟩ := Option.map_eq_some_iff.1 statementMeans
      exact Draft.namesIn_of_meaning? dataMeans
    case h_2 same _ => cases same
    case h_3 => cases statementMeans

/-! ## The records as they are written -/

theorem size_written : (a.written call m).size = m.size := by
  simp only [Answer.written, Answer.store, Memory.storeWords, Memory.size_store]

theorem fits_written {offset length : Nat} :
    (a.written call m).Fits offset length ↔ m.Fits offset length := by
  rw [Memory.fits_iff, Memory.fits_iff, size_written]

/-- What lies outside of both records stays. -/
theorem agreeOn_written {offset length : Nat} (encodable : a.Encodable)
    (status : offset + length ≤ call.status ∨ call.status + Status.recordSize ≤ offset)
    (statement : offset + length ≤ call.statement ∨
      call.statement + Statement.recordSize ≤ offset) :
    m.AgreeOn (a.written call m) offset length := by
  have first := a.length_statusWords_le call.input
  have second := encodable.statement call.input
  refine ⟨size_written, ?_⟩
  intro i inside
  rw [Answer.written, Answer.store, Memory.storeWords, Memory.storeWords,
    Memory.byteAt_store_of_outside, Memory.byteAt_store_of_outside]
  · rw [length_flatMap_bytesOfWord]
    omega
  · rw [length_flatMap_bytesOfWord]
    omega

theorem agreeOn_input_written (prepared : call.Prepared input m) (encodable : a.Encodable) :
    m.AgreeOn (a.written call m) call.input call.length := by
  have status := prepared.input_status
  have statement := prepared.input_statement
  exact agreeOn_written encodable (by omega) (by omega)

theorem holdsWords_status_written (prepared : call.Prepared input m) (encodable : a.Encodable) :
    (a.written call m).HoldsWords call.status (a.statusWords call.input) := by
  have first := a.length_statusWords_le call.input
  have second := encodable.statement call.input
  have records := prepared.status_statement
  apply Memory.HoldsWords.store
  · apply Memory.holdsWords_storeWords _ _ prepared.aligned_status
    exact prepared.fits_status.part (by omega)
  · rw [length_flatMap_bytesOfWord]
    omega

theorem holdsWords_statement_written (prepared : call.Prepared input m) (encodable : a.Encodable) :
    (a.written call m).HoldsWords call.statement (a.statementWords call.input) := by
  have second := encodable.statement call.input
  apply Memory.holdsWords_storeWords _ _ prepared.aligned_statement
  exact Memory.fits_store_iff.2 (prepared.fits_statement.part (by omega))

/-- Nothing but the code is written of a status without a place, and the rest stays clear. -/
theorem clear_written (prepared : call.Prepared input m) (encodable : a.Encodable)
    (absent : a.location = none) : (a.written call m).readWord (call.status + 8) = .ok 0 := by
  have second := encodable.statement call.input
  have aligned := prepared.aligned_status
  have records := prepared.status_statement
  have clear : m.readWord (call.status + 8) = .ok 0 :=
    Memory.readWord_of_zeros prepared.status prepared.fits_status (by omega) (by decide)
  simp only [Status.recordSize] at records
  simp only [Answer.written, Answer.store, Memory.storeWords, Answer.statusWords, absent]
  rw [Memory.readWord_store_of_disjoint, Memory.readWord_store_of_disjoint, clear]
  · exact .inr (by simp [length_bytesOfWord])
  · rw [length_flatMap_bytesOfWord]
    omega

/-- The kind is that of the statement, and none in a record that stayed clear. -/
theorem kind_written (prepared : call.Prepared input m) (encodable : a.Encodable) :
    (a.written call m).readWord (call.statement + 4) = .ok ((a.statement.map (·.kind)).getD 0) := by
  cases statement : a.statement with
  | none =>
    have aligned := prepared.aligned_statement
    have records := prepared.status_statement
    have first := a.length_statusWords_le call.input
    have clear : m.readWord (call.statement + 4) = .ok 0 :=
      Memory.readWord_of_zeros prepared.statement prepared.fits_statement (by omega) (by decide)
    simp only [Statement.recordSize] at records
    simp only [Answer.written, Answer.store, Memory.storeWords, Answer.statementWords, statement,
      List.flatMap_nil]
    rw [Memory.store, Memory.readWord_store_of_disjoint, clear]
    · rfl
    · rw [length_flatMap_bytesOfWord]
      omega
  | some d =>
    have words := holdsWords_statement_written prepared encodable
    simp only [Answer.statementWords, statement, Memory.holdsWords_cons] at words
    rw [words.2.1, encodable.kind d statement]
    rfl

theorem leadsInto_status_written (small : m.size < 0x100000000) (prepared : call.Prepared input m)
    (encodable : a.Encodable) (views : a.ViewsInto input) :
    (a.written call m).LeadsInto (call.status + 4) call.input call.length := by
  cases location : a.location with
  | none => exact Memory.leadsInto_of_clear (clear_written prepared encodable location) _ _
  | some v =>
    have words := holdsWords_status_written prepared encodable
    simp only [Answer.statusWords, location] at words
    rw [prepared.length]
    apply Memory.leadsInto_of_span? _ _ (views.location v location) words.2
    · rwa [size_written]
    · rw [fits_written, ← prepared.length]
      exact prepared.fits_input.part (by omega)

theorem leadsInto_statement_written (small : m.size < 0x100000000)
    (prepared : call.Prepared input m) (encodable : a.Encodable) (views : a.ViewsInto input)
    {raw : Int} (read : (a.written call m).readWord (call.statement + 4) = .ok raw) {n : Nat}
    (named : n ∈ (StatementKind.ofRaw raw).nameWord?) :
    (a.written call m).LeadsInto (call.statement + 8 + 4 * n) call.input call.length := by
  rw [kind_written prepared encodable, Except.ok.injEq] at read
  cases statement : a.statement with
  | none =>
    rw [statement] at read
    cases read
    cases named
  | some d =>
    rw [statement] at read
    cases read
    have words := holdsWords_statement_written prepared encodable
    obtain ⟨before, name, rest, payload, rfl, inside⟩ := views.name d statement n named
    have plain : (before.map Field.word).flatMap (Field.toWords call.input) = before := by
      rw [List.flatMap_map]
      exact List.flatMap_singleton' before
    simp only [Answer.statementWords, statement, Memory.holdsWords_cons] at words
    have payloadWords := words.2.2
    rw [payload, List.flatMap_append, plain, Memory.holdsWords_append, List.flatMap_cons,
      Memory.holdsWords_append] at payloadWords
    rw [prepared.length]
    apply Memory.leadsInto_of_span? _ _ inside payloadWords.2.1
    · rwa [size_written]
    · rw [fits_written, ← prepared.length]
      exact prepared.fits_input.part (by omega)

/-! ## Reading the answer back -/

theorem Answer.code_of_status? {status : Status} (h : a.status? input = some status) :
    status.code = StatusCode.ofRaw a.code := by
  simp only [status?] at h
  cases location : a.location with
  | none =>
    rw [location, Option.some.injEq] at h
    rw [← h]
  | some v =>
    rw [location] at h
    obtain ⟨span, _, rfl⟩ := Option.map_eq_some_iff.1 h
    split <;> rfl

theorem holdsInput_written (small : m.size ≤ 0x80000000) (prepared : call.Prepared input m)
    (encodable : a.Encodable) : (a.written call m).HoldsInput call.input input := by
  have whole := prepared.fits_input
  have same := (agreeOn_input_written prepared encodable).slice (whole.part (by omega))
  rw [prepared.slice_input, prepared.length] at same
  constructor
  · rwa [size_written]
  · rw [fits_written, ← prepared.length]
    exact whole
  · exact same

/-- An answer that is written word for word is read as what it means. -/
theorem readAnswer_written {result : ParseResult} (small : m.size ≤ 0x80000000)
    (prepared : call.Prepared input m) (encodable : a.Encodable)
    (means : a.meaning? input = some result) :
    Engine.readAnswer call a.count (a.written call m) = .ok result := by
  have held := holdsInput_written small prepared encodable
  have status := Memory.fits_iff.1 prepared.fits_status
  have record := Memory.fits_iff.1 prepared.fits_statement
  simp only [Status.recordSize, Statement.recordSize] at status record
  obtain ⟨status, statusMeans, rest⟩ := Option.bind_eq_some_iff.1 means
  obtain ⟨statement, statementMeans, last⟩ := Option.bind_eq_some_iff.1 rest
  have statusRead : Status.read (a.written call m) call.status call.input = .ok status :=
    read_status held (by omega) encodable.code statusMeans
      (holdsWords_status_written prepared encodable) (clear_written prepared encodable)
  have words := holdsWords_statement_written prepared encodable
  have code := Answer.code_of_status? statusMeans
  rw [Answer.statement?] at statementMeans
  simp only [Engine.readAnswer, statusRead, bind, Except.bind, code]
  split at statementMeans
  case h_1 d draft resumable =>
    obtain ⟨data, dataMeans, rfl⟩ := Option.map_eq_some_iff.1 statementMeans
    simp only [Answer.statementWords, draft] at words
    simp only [resumable, if_true,
      read_statement held (by omega) (encodable.kind d draft) dataMeans words]
    rw [← Option.some.inj last, prepared.length]
    rfl
  case h_2 resumable =>
    cases statementMeans
    simp only [resumable]
    rw [← Option.some.inj last, prepared.length]
    rfl
  case h_3 => cases statementMeans

/-- What a call may leave that is answered by `a`. The input stays, the status record tells the
answer's status, and the statement record its statement if the code is one that has it read. Of the
payload only those bytes count that the kind has read. -/
structure Answer.LeftIn (a : Answer) (call : ParseCall) (before after : Memory) : Prop where
  input : before.AgreeOn after call.input call.length
  status : (a.written call before).AgreeOn after call.status Status.recordSize
  header : (StatusCode.ofRaw a.code).isResumable = true →
    (a.written call before).AgreeOn after call.statement 8
  payload : (StatusCode.ofRaw a.code).isResumable = true → ∀ d ∈ a.statement, ∀ i,
    (StatementKind.ofRaw d.kind).Reads i →
      after.byteAt (call.statement + 8 + i) =
        (a.written call before).byteAt (call.statement + 8 + i)

namespace Answer.LeftIn

theorem size (left : a.LeftIn call m after) : after.size = m.size := left.input.size

/-- Writing the answer word for word is one way to leave it. -/
theorem refl (prepared : call.Prepared input m) (encodable : a.Encodable) :
    a.LeftIn call m (a.written call m) where
  input := agreeOn_input_written prepared encodable
  status := .refl _
  header _ := .refl _
  payload _ _ _ _ _ := rfl

/-- What nobody reads may be written over. -/
theorem store {o : Nat} {bytes : List UInt8} (left : a.LeftIn call m after)
    (input : call.input + call.length ≤ o ∨ o + bytes.length ≤ call.input)
    (status : call.status + Status.recordSize ≤ o ∨ o + bytes.length ≤ call.status)
    (header : call.statement + 8 ≤ o ∨ o + bytes.length ≤ call.statement)
    (payload : ∀ d ∈ a.statement, ∀ i, (StatementKind.ofRaw d.kind).Reads i →
      call.statement + 8 + i < o ∨ o + bytes.length ≤ call.statement + 8 + i) :
    a.LeftIn call m (after.store o bytes) where
  input := left.input.trans (.of_outside input)
  status := left.status.trans (.of_outside status)
  header resumable := (left.header resumable).trans (.of_outside header)
  payload resumable d is i reads :=
    (Memory.byteAt_store_of_outside (payload d is i reads)).trans
      (left.payload resumable d is i reads)

/-- However a call leaves its answer, the same is read back of it. -/
theorem readAnswer_eq (small : m.size < 0x100000000) (prepared : call.Prepared input m)
    (encodable : a.Encodable) (views : a.ViewsInto input) (left : a.LeftIn call m after)
    (raw : Int) :
    Engine.readAnswer call raw after = Engine.readAnswer call raw (a.written call m) := by
  have source := (agreeOn_input_written prepared encodable).symm.trans left.input
  have near := Memory.fits_iff.1 prepared.fits_status
  have near' := Memory.fits_iff.1 prepared.fits_statement
  have statusRead : Status.read after call.status call.input =
      Status.read (a.written call m) call.status call.input :=
    left.status.readStatus source (leadsInto_status_written small prepared encodable views)
      (by omega)
  have codeRead := (holdsWords_status_written prepared encodable).1
  rw [encodable.code] at codeRead
  rw [Engine.readAnswer, Engine.readAnswer, statusRead]
  cases read : Status.read (a.written call m) call.status call.input with
  | error => simp only [bind, Except.bind]
  | ok status =>
    have code := Status.code_of_read read codeRead
    cases resumable : (StatusCode.ofRaw a.code).isResumable with
    | false => simp only [bind, Except.bind, code, resumable, Bool.false_eq_true, if_false]
    | true =>
      have statementRead : Statement.read after call.statement call.input =
          Statement.read (a.written call m) call.statement call.input := by
        apply (left.header resumable).readStatement source
        · intro raw kindRead i reads
          rw [kind_written prepared encodable, Except.ok.injEq] at kindRead
          cases statement : a.statement with
          | none =>
            rw [statement] at kindRead
            cases kindRead
            exact absurd reads (StatementKind.not_reads_none i)
          | some d =>
            rw [statement] at kindRead
            cases kindRead
            exact left.payload resumable d statement i reads
        · intro raw kindRead n named
          exact leadsInto_statement_written small prepared encodable views kindRead named
        · omega
      simp only [bind, Except.bind, code, resumable, if_true, statementRead]

theorem readAnswer {result : ParseResult} (small : m.size ≤ 0x80000000)
    (prepared : call.Prepared input m) (encodable : a.Encodable)
    (means : a.meaning? input = some result) (left : a.LeftIn call m after) :
    Engine.readAnswer call a.count after = .ok result := by
  have addressed : m.size < 0x100000000 := Nat.lt_of_le_of_lt small (by decide)
  rw [left.readAnswer_eq addressed prepared encodable (viewsInto_of_meaning? means)]
  exact readAnswer_written small prepared encodable means

end Answer.LeftIn

end

end SchemaHighlighter
