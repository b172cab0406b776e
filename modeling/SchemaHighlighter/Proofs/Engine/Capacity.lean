import SchemaHighlighter.Proofs.Engine.Pure

/-! # The capacity of a scratch stack

How long a text may be for its call to fit on the stack. Every call leaves the stack as it was,
so a machine has the same capacity at every call. -/
namespace SchemaHighlighter

/-- The inputs that the stack has room for are those of up to `capacity` bytes. -/
def Scratch.HasCapacity (s : Scratch) (capacity : Nat) : Prop :=
  ∀ n, s.Holds (callSizes n) ↔ n ≤ capacity

/-- The two records and the terminator take 81 bytes of the room, and its last bytes are lost
when it is not a multiple of sixteen. -/
theorem Scratch.hasCapacity_atTop {size room : Nat} (fits : room ≤ size) (enough : 96 ≤ room) :
    (Scratch.atTop size room).HasCapacity (alignDown room - 81) := by
  intro n
  simp only [Holds, callSizes, FitsNext, push, place, atTop, alignDown, Status.recordSize,
    Statement.recordSize, and_true]
  omega

theorem Text.byteLength_replicate (n : Nat) : byteLength (List.replicate n 'a') = n := by
  induction n with
  | zero => rfl
  | succ n ih =>
    have one : 'a'.utf8Size = 1 := rfl
    rw [List.replicate_succ, byteLength_cons, ih, one, Nat.add_comm]

namespace Engine

variable {τ : Type} {parse : ParseCall → Action (Linear τ) Int} {text : Text}
  {m : Machine (Linear τ)} {own : τ → Prop} {f : Text → ParseResult} {capacity : Nat}

/-- The texts that overflow the stack are those of more than `capacity` bytes. -/
def HasCapacity {σ : Type} (e : Engine σ) (capacity : Nat) (m : Machine σ) : Prop :=
  ∀ text, (∃ requested available,
    (e.parseStatement text m).1 = .error (.stackOverflow requested available)) ↔
      capacity < Text.byteLength text

theorem overflows_iff (pure : Pure f own parse) (fit : Serviceable own m) :
    (∃ requested available, ((linear parse).parseStatement text m).1 =
        .error (.stackOverflow requested available)) ↔
      ¬ m.control.scratch.Holds (Scratch.callSizes (Text.byteLength text)) := by
  constructor
  · rintro ⟨requested, available, overflow⟩ room
    obtain ⟨result, after, run, -⟩ := parseStatement_of_holds pure fit room
    rw [run] at overflow
    cases overflow
  · intro full
    obtain ⟨requested, available, memory, run, -⟩ :=
      parseStatement_of_not_holds parse fit.sound full
    exact ⟨requested, available, by rw [run]⟩

theorem hasCapacity_iff (pure : Pure f own parse) (fit : Serviceable own m) :
    (linear parse).HasCapacity capacity m ↔ m.control.scratch.HasCapacity capacity := by
  constructor
  · intro bound n
    have iff := (overflows_iff pure fit).symm.trans (bound (List.replicate n 'a'))
    rw [Text.byteLength_replicate] at iff
    rw [← Nat.not_lt, ← iff, Decidable.not_not]
  · intro bound text
    rw [overflows_iff pure fit, bound, Nat.not_le]

theorem hasCapacity_machine (pure : Pure f own parse) {size room : Nat} {state : τ}
    (small : size ≤ 0x80000000) (fits : room ≤ size) (enough : 96 ≤ room) (owned : own state) :
    (linear parse).HasCapacity (alignDown room - 81) (Linear.machine size room state) :=
  (hasCapacity_iff pure ⟨Linear.sound_machine state small, owned⟩).2
    (Scratch.hasCapacity_atTop fits enough)

/-- A machine on which a pure engine can go on, with the capacity of its stack. -/
structure Ready (parse : ParseCall → Action (Linear τ) Int) (own : τ → Prop) (capacity : Nat)
    (m : Machine (Linear τ)) : Prop where
  fit : Serviceable own m
  bound : (linear parse).HasCapacity capacity m

/-- A call comes to its answer up to the capacity, overflows beyond, and changes neither. -/
theorem parseStatement_of_ready (pure : Pure f own parse) (ready : Ready parse own capacity m)
    {outcome : Except EngineError ParseResult} {after : Machine (Linear τ)}
    (run : (linear parse).parseStatement text m = (outcome, after)) :
    Ready parse own capacity after ∧
      (Text.byteLength text ≤ capacity ∧
          (∃ result, outcome = .ok result ∧ result.withoutId = f text) ∨
        capacity < Text.byteLength text ∧
          ∃ requested available, outcome = .error (.stackOverflow requested available)) := by
  obtain ⟨fit, scratch, ends⟩ := parseStatement_of_pure pure ready.fit run
  have overflows := ready.bound text
  rw [run] at overflows
  constructor
  · refine ⟨fit, (hasCapacity_iff pure fit).2 ?_⟩
    rw [scratch]
    exact (hasCapacity_iff pure ready.fit).1 ready.bound
  · rcases ends with ⟨result, rfl, same⟩ | overflow
    · refine .inl ⟨Nat.not_lt.1 ?_, result, rfl, same⟩
      intro long
      obtain ⟨_, _, overflow⟩ := overflows.2 long
      cases overflow
    · exact .inr ⟨overflows.1 overflow, overflow⟩

end Engine

end SchemaHighlighter
