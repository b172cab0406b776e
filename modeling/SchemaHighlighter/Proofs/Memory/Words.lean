import SchemaHighlighter.Record.Meaning

/-! # Words in memory

A stored run of bytes is read back at its own addresses and leaves every other byte alone.
From this a row of words that was stored is read back word by word, as far as a word
survives in 32 bits, and stays where it is under stores elsewhere. -/
namespace SchemaHighlighter

theorem signedWord_of_range {n : Int} (low : -0x80000000 ≤ n) (high : n < 0x80000000) :
    signedWord n = n := by
  rw [signedWord, Int.bmod_def]
  split <;> omega

/-- The four bytes of a word carry it as far as it survives in 32 bits. -/
theorem wordOfBytes_bytesOfWord (value : Int) {b₀ b₁ b₂ b₃ : UInt8}
    (h : bytesOfWord value = [b₀, b₁, b₂, b₃]) : wordOfBytes b₀ b₁ b₂ b₃ = signedWord value := by
  have nonneg : 0 ≤ value % 0x100000000 := Int.emod_nonneg _ (by decide)
  have below : value % 0x100000000 < 0x100000000 := Int.emod_lt_of_pos _ (by decide)
  have back : ((value % 0x100000000).toNat : Int) = value % 0x100000000 :=
    Int.toNat_of_nonneg nonneg
  rw [bytesOfWord] at h
  generalize (value % 0x100000000).toNat = n at h back
  simp only [List.cons.injEq, and_true] at h
  have total : b₀.toNat + 0x100 * b₁.toNat + 0x10000 * b₂.toNat + 0x1000000 * b₃.toNat = n := by
    rw [← h.1, ← h.2.1, ← h.2.2.1, ← h.2.2.2]
    simp only [UInt8.toNat_ofNat']
    omega
  unfold wordOfBytes signedWord
  rw [total, back]
  exact Int.emod_bmod value 0x100000000

theorem signedWord_emod (n : Int) : signedWord n % 0x100 = n % 0x100 := by
  rw [signedWord, Int.bmod_def]
  split <;> omega

theorem wordOfBytes_emod (b₀ b₁ b₂ b₃ : UInt8) :
    wordOfBytes b₀ b₁ b₂ b₃ % 0x100 = b₀.toNat := by
  have h := signedWord_emod
    (b₀.toNat + 0x100 * b₁.toNat + 0x10000 * b₂.toNat + 0x1000000 * b₃.toNat : Nat)
  have least : ((b₀.toNat + 0x100 * b₁.toNat + 0x10000 * b₂.toNat +
      0x1000000 * b₃.toNat : Nat) : Int) % 0x100 = b₀.toNat := by
    have := b₀.toNat_lt
    omega
  rw [least] at h
  exact h

theorem length_bytesOfWord (value : Int) : (bytesOfWord value).length = 4 := rfl

theorem length_flatMap_bytesOfWord (values : List Int) :
    (values.flatMap bytesOfWord).length = 4 * values.length := by
  induction values with
  | nil => rfl
  | cons v values ih =>
    simp only [List.flatMap_cons, List.length_append, length_bytesOfWord, ih, List.length_cons]
    omega

namespace Memory

variable {m : Memory} {offset base : Nat} {bytes : List UInt8}

theorem fits_iff {o n : Nat} : m.Fits o n ↔ o + n ≤ m.size := Iff.rfl

theorem checkRange_eq_ok_iff {o n : Nat} : m.checkRange o n = .ok () ↔ m.Fits o n := by
  rw [checkRange]
  split
  case isTrue fits => exact iff_of_true rfl fits
  case isFalse outside => exact iff_of_false nofun outside

theorem Fits.part {o n length : Nat} (fits : m.Fits offset length)
    (within : o + n ≤ offset + length) : m.Fits o n := Nat.le_trans within fits

theorem Fits.of_size {m' : Memory} {o n : Nat} (fits : m.Fits o n) (same : m'.size = m.size) :
    m'.Fits o n := by
  rwa [fits_iff, same]

theorem byteAt_store_of_outside {a : Nat} (h : a < offset ∨ offset + bytes.length ≤ a) :
    (m.store offset bytes).byteAt a = m.byteAt a := by
  rw [byteAt_store]
  split
  · rw [List.getD_eq_getElem?_getD, List.getElem?_eq_none (by omega)]
    rfl
  · rfl

theorem byteAt_store_of_inside {i : Nat} (hi : i < bytes.length)
    (fits : m.Fits offset bytes.length) :
    (m.store offset bytes).byteAt (offset + i) = bytes[i] := by
  rw [fits_iff] at fits
  rw [byteAt_store, if_pos (by omega)]
  simp [hi]

theorem store_append (m : Memory) (offset : Nat) (s t : List UInt8) :
    m.store offset (s ++ t) = (m.store offset s).store (offset + s.length) t := by
  induction s generalizing m offset with
  | nil => rfl
  | cons b s ih =>
    have next : offset + 1 + s.length = offset + (s.length + 1) := by omega
    simp only [List.cons_append, store, ih, List.length_cons, next]

theorem fits_store_iff {o n : Nat} : (m.store offset bytes).Fits o n ↔ m.Fits o n := by
  rw [fits_iff, fits_iff, size_store]

theorem length_slice {n : Nat} (fits : m.Fits offset n) : (m.slice offset n).length = n := by
  rw [fits_iff, size] at fits
  simp only [slice, Array.length_toList, Array.size_extract]
  omega

theorem getElem_slice {n i : Nat} (hi : i < (m.slice offset n).length) :
    (m.slice offset n)[i] = m.byteAt (offset + i) := by
  have within : offset + i < m.bytes.size := by
    simp only [slice, Array.length_toList, Array.size_extract] at hi
    omega
  simp [slice, byteAt, within]

theorem slice_congr {m' : Memory} {n : Nat} (size : m'.size = m.size) (fits : m.Fits offset n)
    (same : ∀ i, i < n → m'.byteAt (offset + i) = m.byteAt (offset + i)) :
    m'.slice offset n = m.slice offset n := by
  have fits' := fits.of_size size
  apply List.ext_getElem
  · rw [length_slice fits, length_slice fits']
  · intro i hi _
    rw [length_slice fits'] at hi
    rw [getElem_slice, getElem_slice, same i hi]

theorem slice_store_of_disjoint {o n : Nat} (fits : m.Fits o n)
    (apart : o + n ≤ offset ∨ offset + bytes.length ≤ o) :
    (m.store offset bytes).slice o n = m.slice o n :=
  slice_congr (size_store ..) fits fun _ hi => byteAt_store_of_outside (by omega)

theorem slice_store_self (fits : m.Fits offset bytes.length) :
    (m.store offset bytes).slice offset bytes.length = bytes := by
  apply List.ext_getElem
  · exact length_slice (fits_store_iff.2 fits)
  · intro i _ hi
    rw [getElem_slice, byteAt_store_of_inside hi fits]

theorem slice_store_zeros {length : Nat} (fits : m.Fits offset length) :
    (m.store offset (List.replicate length 0)).slice offset length = List.replicate length 0 := by
  have zeros : m.Fits offset (List.replicate length (0 : UInt8)).length := by
    rwa [List.length_replicate]
  have self := slice_store_self zeros
  rwa [List.length_replicate] at self

theorem take_drop_slice {n start length : Nat} (fits : m.Fits offset n)
    (within : start + length ≤ n) :
    ((m.slice offset n).drop start).take length = m.slice (offset + start) length := by
  have part : m.Fits (offset + start) length := fits.part (by omega)
  apply List.ext_getElem
  · simp only [List.length_take, List.length_drop, length_slice fits, length_slice part]
    omega
  · intro i _ _
    simp only [List.getElem_take, List.getElem_drop, getElem_slice, Nat.add_assoc]

theorem slice_four {o : Nat} (fits : m.Fits o 4) :
    m.slice o 4 = [m.byteAt o, m.byteAt (o + 1), m.byteAt (o + 2), m.byteAt (o + 3)] := by
  apply List.ext_getElem
  · exact length_slice fits
  · intro i hi bound
    rw [getElem_slice]
    match i, bound with
    | 0, _ | 1, _ | 2, _ | 3, _ => rfl

/-- The signed word of the four bytes from an address on. -/
def wordAt (m : Memory) (o : Nat) : Int :=
  wordOfBytes (m.byteAt o) (m.byteAt (o + 1)) (m.byteAt (o + 2)) (m.byteAt (o + 3))

theorem readWord_eq {o : Nat} (aligned : o % 4 = 0) (fits : m.Fits o 4) :
    m.readWord o = .ok (m.wordAt o) := by
  simp only [readWord, checkAligned, checkRange, if_pos aligned, if_pos fits]
  rfl

theorem readWord_eq_ok_iff {o : Nat} {value : Int} :
    m.readWord o = .ok value ↔ o % 4 = 0 ∧ m.Fits o 4 ∧ value = m.wordAt o := by
  constructor
  · intro h
    by_cases aligned : o % 4 = 0
    · by_cases fits : m.Fits o 4
      · rw [readWord_eq aligned fits, Except.ok.injEq] at h
        exact ⟨aligned, fits, h.symm⟩
      · simp only [readWord, checkAligned, checkRange, if_pos aligned, if_neg fits] at h
        cases h
    · simp only [readWord, checkAligned, if_neg aligned] at h
      cases h
  · rintro ⟨aligned, fits, same⟩
    rw [same, readWord_eq aligned fits]

theorem readWord_of_slice {o : Nat} {value : Int} (aligned : o % 4 = 0) (fits : m.Fits o 4)
    (h : m.slice o 4 = bytesOfWord value) : m.readWord o = .ok (signedWord value) := by
  rw [slice_four fits] at h
  rw [readWord_eq aligned fits, wordAt, wordOfBytes_bytesOfWord value h.symm]

theorem readWord_store_of_disjoint {o : Nat} (apart : o + 4 ≤ offset ∨ offset + bytes.length ≤ o) :
    (m.store offset bytes).readWord o = m.readWord o := by
  simp only [readWord, checkRange, fits_store_iff, size_store]
  rw [byteAt_store_of_outside (by omega), byteAt_store_of_outside (by omega),
    byteAt_store_of_outside (by omega), byteAt_store_of_outside (by omega)]

theorem readWord_store_bytesOfWord (value : Int) (aligned : offset % 4 = 0)
    (fits : m.Fits offset 4) :
    (m.store offset (bytesOfWord value)).readWord offset = .ok (signedWord value) :=
  readWord_of_slice aligned (fits_store_iff.2 fits) (slice_store_self fits)

theorem readByte_of_readWord {o : Nat} {value : Int} (h : m.readWord o = .ok value) :
    ∃ b : UInt8, m.readByte o = .ok b ∧ value % 0x100 = b.toNat := by
  obtain ⟨-, fits, same⟩ := readWord_eq_ok_iff.1 h
  have one : m.Fits o 1 := fits.part (by omega)
  rw [same, wordAt, wordOfBytes_emod]
  refine ⟨m.byteAt o, ?_, rfl⟩
  simp only [readByte, checkRange, if_pos one]
  rfl

/-- From `offset` on the memory holds these words, as far as they survive in 32 bits. -/
def HoldsWords (m : Memory) : Nat → List Int → Prop
  | _, [] => True
  | offset, v :: rest => m.readWord offset = .ok (signedWord v) ∧ m.HoldsWords (offset + 4) rest

@[simp] theorem holdsWords_nil : m.HoldsWords offset [] := trivial

@[simp] theorem holdsWords_cons {v : Int} {rest : List Int} :
    m.HoldsWords offset (v :: rest) ↔
      m.readWord offset = .ok (signedWord v) ∧ m.HoldsWords (offset + 4) rest := Iff.rfl

theorem holdsWords_append {s t : List Int} :
    m.HoldsWords offset (s ++ t) ↔
      m.HoldsWords offset s ∧ m.HoldsWords (offset + 4 * s.length) t := by
  induction s generalizing offset with
  | nil => simp
  | cons v s ih =>
    have next : offset + 4 + 4 * s.length = offset + 4 * (s.length + 1) := by omega
    simp only [List.cons_append, holdsWords_cons, ih, List.length_cons, and_assoc, next]

theorem HoldsWords.store {values : List Int} {o : Nat} (h : m.HoldsWords o values)
    (apart : o + 4 * values.length ≤ offset ∨ offset + bytes.length ≤ o) :
    (m.store offset bytes).HoldsWords o values := by
  induction values generalizing o with
  | nil => trivial
  | cons v rest ih =>
    rw [List.length_cons] at apart
    constructor
    · rw [readWord_store_of_disjoint (by omega), h.1]
    · exact ih h.2 (by omega)

theorem holdsWords_storeWords (m : Memory) (values : List Int) (aligned : offset % 4 = 0)
    (fits : m.Fits offset (4 * values.length)) :
    (m.storeWords offset values).HoldsWords offset values := by
  induction values generalizing m offset with
  | nil => trivial
  | cons v rest ih =>
    rw [List.length_cons] at fits
    have split : m.storeWords offset (v :: rest) =
        (m.store offset (bytesOfWord v)).storeWords (offset + 4) rest := store_append ..
    rw [split]
    constructor
    · rw [storeWords, readWord_store_of_disjoint (.inl (Nat.le_refl _))]
      exact readWord_store_bytesOfWord v aligned (fits.part (by omega))
    · exact ih _ (by omega) (fits_store_iff.2 (fits.part (by omega)))

end Memory

end SchemaHighlighter
