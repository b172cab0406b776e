import SchemaHighlighter.Proofs.Record.Unguarded

/-! # Which records are accepted

A record is read exactly when it is well formed, and then it says what its bytes say. The parts
that a kind or a code leaves out of account have no influence. In a memory that ends eight bytes
before its addresses do, no sum on the way leaves the address space. -/
namespace SchemaHighlighter

variable {m m' : Memory} {offset base : Nat}

namespace Statement

/-- What reading a statement comes down to. -/
theorem parts_of_read {s : Statement} (h : Statement.read m offset base = .ok s) :
    ∃ raw, m.readWord offset = .ok s.id ∧ m.readWord (offset + 4) = .ok raw ∧
      StatementData.read m (.ofRaw raw) (offset + 8) base = .ok s.data := by
  obtain ⟨id, idRead, h⟩ := exists_of_bind h
  obtain ⟨next, address, h⟩ := exists_of_bind h
  obtain ⟨raw, kindRead, h⟩ := exists_of_bind h
  obtain ⟨payload, address', h⟩ := exists_of_bind h
  obtain ⟨data, read, h⟩ := exists_of_bind h
  cases h
  rw [eq_of_addressAfter address] at kindRead
  rw [eq_of_addressAfter address'] at read
  exact ⟨raw, idRead, kindRead, read⟩

theorem of_read {s : Statement} (h : Statement.read m offset base = .ok s) :
    WellFormed m offset ∧ s.HeldAt m offset base := by
  obtain ⟨raw, idRead, kindRead, read⟩ := parts_of_read h
  obtain ⟨aligned, -, idWord⟩ := Memory.readWord_eq_ok_iff.1 idRead
  obtain ⟨-, header, kindWord⟩ := Memory.readWord_eq_ok_iff.1 kindRead
  obtain ⟨used, name, kind, tells⟩ := of_readData read
  rw [kindWord] at used name kind
  refine ⟨⟨aligned, ?_, name⟩, idWord, ?_, tells⟩
  · rw [Memory.fits_iff] at header used ⊢
    omega
  · rw [Statement.kind, kind]
    exact StatementKind.hasCode_ofRaw _

end Statement

namespace Status

variable {raw length : Int}

theorem isTerminal_eq_true {code : StatusCode} :
    code.isTerminal = true ↔ ¬ code.isResumable = true := by
  rw [StatusCode.isTerminal, Bool.not_eq_true, Bool.not_eq_true']

theorem heldAt_of_no_location (same : raw = m.wordAt offset)
    (unread : (StatusCode.ofRaw raw).isTerminal = true → ¬ 0 < m.wordAt (offset + 8)) :
    HeldAt m offset base { code := .ofRaw raw } := by
  constructor
  · rw [← same]
    exact StatusCode.hasCode_ofRaw raw
  · intro terminal some
    exact absurd some (unread terminal)
  · intro _
    rfl

theorem of_read {s : Status} (h : Status.read m offset base = .ok s) :
    WellFormed m offset ∧ s.HeldAt m offset base := by
  obtain ⟨raw, codeRead, h⟩ := exists_of_bind h
  obtain ⟨aligned, code, same⟩ := Memory.readWord_eq_ok_iff.1 codeRead
  by_cases resumable : (StatusCode.ofRaw raw).isResumable = true
  · simp only [if_pos resumable] at h
    cases h
    have unread : ¬ (StatusCode.ofRaw raw).isTerminal = true :=
      fun terminal => isTerminal_eq_true.1 terminal resumable
    refine ⟨⟨aligned, code, ?_, ?_⟩, heldAt_of_no_location same ?_⟩
    · rw [← same]
      exact fun terminal => absurd terminal unread
    · rw [← same]
      exact fun terminal => absurd terminal unread
    · exact fun terminal => absurd terminal unread
  · simp only [if_neg resumable] at h
    obtain ⟨next, address, h⟩ := exists_of_bind h
    obtain ⟨length, lengthRead, h⟩ := exists_of_bind h
    rw [eq_of_addressAfter address] at lengthRead
    obtain ⟨-, last, sameLength⟩ := Memory.readWord_eq_ok_iff.1 lengthRead
    by_cases nonempty : 0 < length
    · simp only [if_pos nonempty] at h
      obtain ⟨view, address, h⟩ := exists_of_bind h
      obtain ⟨span, read, h⟩ := exists_of_bind h
      cases h
      rw [eq_of_addressAfter address] at read
      obtain ⟨-, fits, names⟩ := Memory.viewFits_of_readSpan read
      refine ⟨⟨aligned, code, fun _ => last, fun _ _ => fits⟩, ?_, fun _ _ => names, ?_⟩
      · rw [← same]
        exact StatusCode.hasCode_ofRaw raw
      · rw [← sameLength]
        rintro (finished | empty)
        · exact absurd (isTerminal_eq_true.2 resumable) (by rw [finished]; decide)
        · exact absurd nonempty (Int.not_lt.2 empty)
    · simp only [if_neg nonempty] at h
      cases h
      rw [sameLength] at nonempty
      refine ⟨⟨aligned, code, fun _ => last, ?_⟩, heldAt_of_no_location same fun _ => nonempty⟩
      intro _ some
      exact absurd some nonempty

end Status

end SchemaHighlighter
