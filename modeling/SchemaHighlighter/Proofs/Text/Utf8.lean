import SchemaHighlighter.Text.Utf8

/-! # Reading what was written

The reading of bytes gives back every text from its own bytes. It follows the encoding of one
character byte by byte, and the bounds on second bytes leave room for every character. -/
namespace SchemaHighlighter.Text

variable {rest : List UInt8}

theorem toNat_ofNat_of_lt {n : Nat} (h : n < 256) : (UInt8.ofNat n).toNat = n := by
  simp only [UInt8.toNat_ofNat']
  omega

theorem decodeFrom_ascii {c : Char} (h : c.toNat < 0x80) :
    decodeFrom none (UInt8.ofNat c.toNat :: rest) = c :: decodeFrom none rest := by
  have value := toNat_ofNat_of_lt (n := c.toNat) (by omega)
  have small : UInt8.ofNat c.toNat < 0x80 := by
    rw [UInt8.lt_iff_toNat_lt, value]
    exact h
  have same : Char.ofUInt8 (UInt8.ofNat c.toNat) = c := by
    apply Char.ext
    apply UInt32.toNat_inj.1
    exact value
  simp only [decodeFrom, if_pos small, same]

theorem decodeFrom_lead {b : UInt8} {g : Begun} (large : ¬ b < 0x80) (begun : lead? b = some g) :
    decodeFrom none (b :: rest) = decodeFrom (some g) rest := by
  simp only [decodeFrom, if_neg large, begun]

theorem between_ofNat {low high : UInt8} {n : Nat} (small : n < 256) (above : low.toNat ≤ n)
    (below : n ≤ high.toNat) : low ≤ UInt8.ofNat n ∧ UInt8.ofNat n ≤ high := by
  rw [UInt8.le_iff_toNat_le, UInt8.le_iff_toNat_le, toNat_ofNat_of_lt small]
  exact ⟨above, below⟩

theorem not_ascii_ofNat {n : Nat} (small : n < 256) (large : 0x80 ≤ n) :
    ¬ UInt8.ofNat n < 0x80 := by
  rw [UInt8.lt_iff_toNat_lt, toNat_ofNat_of_lt small]
  exact Nat.not_lt.2 large

theorem lead?_ofNat {n : Nat} (small : n < 256) :
    lead? (UInt8.ofNat n) =
      if n < 0xC2 then none
      else if n < 0xE0 then some ⟨n % 32, 1, 0x80, 0xBF⟩
      else if n < 0xF0 then
        some ⟨n % 16, 2, if n = 0xE0 then 0xA0 else 0x80, if n = 0xED then 0x9F else 0xBF⟩
      else if n < 0xF5 then
        some ⟨n % 8, 3, if n = 0xF0 then 0x90 else 0x80, if n = 0xF4 then 0x8F else 0xBF⟩
      else none := by
  have value := toNat_ofNat_of_lt small
  simp only [lead?, UInt8.lt_iff_toNat_lt, ← UInt8.toNat_inj, value]
  rfl

theorem decodeFrom_next {bits due n : Nat} {low high : UInt8} (small : n < 64)
    (above : low.toNat ≤ n + 0x80) (below : n + 0x80 ≤ high.toNat) :
    decodeFrom (some ⟨bits, due + 2, low, high⟩) (UInt8.ofNat (n + 0x80) :: rest) =
      decodeFrom (some ⟨bits * 64 + n, due + 1, 0x80, 0xBF⟩) rest := by
  have byte : n + 0x80 < 256 := by omega
  have part : (n + 0x80) % 64 = n := by omega
  have more : ¬ due + 2 ≤ 1 := by omega
  simp only [decodeFrom, if_pos (between_ofNat byte above below), if_neg more,
    toNat_ofNat_of_lt byte, part]
  rfl

theorem decodeFrom_last {bits n : Nat} {low high : UInt8} (small : n < 64)
    (above : low.toNat ≤ n + 0x80) (below : n + 0x80 ≤ high.toNat) :
    decodeFrom (some ⟨bits, 1, low, high⟩) (UInt8.ofNat (n + 0x80) :: rest) =
      Char.ofNat (bits * 64 + n) :: decodeFrom none rest := by
  have byte : n + 0x80 < 256 := by omega
  have part : (n + 0x80) % 64 = n := by omega
  simp only [decodeFrom, if_pos (between_ofNat byte above below), if_pos (Nat.le_refl 1),
    toNat_ofNat_of_lt byte, part]

/-- Every byte inside a character but the second has the full range of values. -/
theorem between_inside {n : Nat} (small : n < 64) :
    UInt8.toNat 0x80 ≤ n + 0x80 ∧ n + 0x80 ≤ UInt8.toNat 0xBF :=
  ⟨Nat.le_add_left .., Nat.add_le_add_right (Nat.le_of_lt_succ small) 0x80⟩

theorem decodeFrom_two {n : Nat} (above : 0x7F < n) (below : n ≤ 0x7FF) :
    decodeFrom none (UInt8.ofNat (n / 64 % 0x20 + 0xC0) :: UInt8.ofNat (n % 0x40 + 0x80) :: rest) =
      Char.ofNat n :: decodeFrom none rest := by
  have lead := lead?_ofNat (n := n / 64 % 0x20 + 0xC0) (by omega)
  rw [if_neg (by omega), if_pos (by omega)] at lead
  obtain ⟨low, high⟩ := between_inside (n := n % 0x40) (by omega)
  have value : (n / 64 % 0x20 + 0xC0) % 32 * 64 + n % 0x40 = n := by omega
  rw [decodeFrom_lead (not_ascii_ofNat (by omega) (by omega)) lead,
    decodeFrom_last (by omega) low high, value]

theorem decodeFrom_three {n : Nat} (above : 0x7FF < n) (below : n ≤ 0xFFFF)
    (valid : n < 0xD800 ∨ 0xDFFF < n) :
    decodeFrom none (UInt8.ofNat (n / 4096 % 0x10 + 0xE0) ::
        UInt8.ofNat (n / 64 % 0x40 + 0x80) :: UInt8.ofNat (n % 0x40 + 0x80) :: rest) =
      Char.ofNat n :: decodeFrom none rest := by
  have lead := lead?_ofNat (n := n / 4096 % 0x10 + 0xE0) (by omega)
  rw [if_neg (by omega), if_neg (by omega), if_pos (by omega)] at lead
  obtain ⟨low, high⟩ := between_inside (n := n % 0x40) (by omega)
  have value : ((n / 4096 % 0x10 + 0xE0) % 16 * 64 + n / 64 % 0x40) * 64 + n % 0x40 = n := by
    omega
  rw [decodeFrom_lead (not_ascii_ofNat (by omega) (by omega)) lead, decodeFrom_next (by omega),
    decodeFrom_last (by omega) low high, value]
  · split
    · exact (by omega : 0xA0 ≤ n / 64 % 0x40 + 0x80)
    · exact Nat.le_add_left ..
  · split
    · exact (by omega : n / 64 % 0x40 + 0x80 ≤ 0x9F)
    · exact (by omega : n / 64 % 0x40 + 0x80 ≤ 0xBF)

theorem decodeFrom_four {n : Nat} (above : 0xFFFF < n) (below : n < 0x110000) :
    decodeFrom none (UInt8.ofNat (n / 262144 % 0x08 + 0xF0) ::
        UInt8.ofNat (n / 4096 % 0x40 + 0x80) :: UInt8.ofNat (n / 64 % 0x40 + 0x80) ::
        UInt8.ofNat (n % 0x40 + 0x80) :: rest) =
      Char.ofNat n :: decodeFrom none rest := by
  have lead := lead?_ofNat (n := n / 262144 % 0x08 + 0xF0) (by omega)
  rw [if_neg (by omega), if_neg (by omega), if_neg (by omega), if_pos (by omega)] at lead
  obtain ⟨low, high⟩ := between_inside (n := n % 0x40) (by omega)
  obtain ⟨low', high'⟩ := between_inside (n := n / 64 % 0x40) (by omega)
  have value : (((n / 262144 % 0x08 + 0xF0) % 8 * 64 + n / 4096 % 0x40) * 64 +
      n / 64 % 0x40) * 64 + n % 0x40 = n := by omega
  rw [decodeFrom_lead (not_ascii_ofNat (by omega) (by omega)) lead, decodeFrom_next (by omega),
    decodeFrom_next (by omega) low' high', decodeFrom_last (by omega) low high, value]
  · split
    · exact (by omega : 0x90 ≤ n / 4096 % 0x40 + 0x80)
    · exact Nat.le_add_left ..
  · split
    · exact (by omega : n / 4096 % 0x40 + 0x80 ≤ 0x8F)
    · exact (by omega : n / 4096 % 0x40 + 0x80 ≤ 0xBF)

/-- The bytes of one character are read as it. -/
theorem decodeFrom_encodeChar (c : Char) :
    decodeFrom none (String.utf8EncodeChar c ++ rest) = c :: decodeFrom none rest := by
  have valid : c.toNat < 0xD800 ∨ 0xDFFF < c.toNat ∧ c.toNat < 0x110000 := c.valid
  have back : Char.ofNat c.toNat = c := Char.ofNat_toNat c
  simp only [String.utf8EncodeChar]
  change decodeFrom none ((if c.toNat ≤ 0x7f then _ else if c.toNat ≤ 0x7ff then _ else
    if c.toNat ≤ 0xffff then _ else _) ++ rest) = _
  by_cases one : c.toNat ≤ 0x7f
  · rw [if_pos one]
    exact decodeFrom_ascii (by omega)
  · rw [if_neg one]
    by_cases two : c.toNat ≤ 0x7ff
    · rw [if_pos two]
      have read : _ = Char.ofNat c.toNat :: decodeFrom none rest :=
        decodeFrom_two (by omega) two
      rw [back] at read
      exact read
    · rw [if_neg two]
      by_cases three : c.toNat ≤ 0xffff
      · rw [if_pos three]
        have read : _ = Char.ofNat c.toNat :: decodeFrom none rest :=
          decodeFrom_three (by omega) three (by omega)
        rw [back] at read
        exact read
      · rw [if_neg three]
        have read : _ = Char.ofNat c.toNat :: decodeFrom none rest :=
          decodeFrom_four (by omega) (by omega)
        rw [back] at read
        exact read

theorem decode_encode (text : Text) : decode (encode text) = text := by
  rw [decode]
  induction text with
  | nil => rfl
  | cons c rest ih =>
    have bytes : encode (c :: rest) = String.utf8EncodeChar c ++ encode rest := rfl
    rw [bytes, decodeFrom_encodeChar, ih]

end SchemaHighlighter.Text
