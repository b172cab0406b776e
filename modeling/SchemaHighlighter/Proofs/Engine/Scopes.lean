import SchemaHighlighter.Engine.Scope
import SchemaHighlighter.Proofs.Engine.Stack

/-! # Scopes never overlap

A program of allocations and of scopes within scopes runs on the scratch stack of a linear memory.
Wherever the run is, the pointer marks the end of all that is taken and not given back yet, so the
allocations lie apart. A scope leaves no trace, and the program goes on as if it were not there. -/
namespace SchemaHighlighter

variable {σ τ : Type}

namespace Instruction

/-- Programs of allocations and saves, and of scopes around such programs. -/
inductive Nested : List Instruction → Prop
  | nil : Nested []
  | alloc (size : Nat) {rest : List Instruction} : Nested rest → Nested (.alloc size :: rest)
  | save {rest : List Instruction} : Nested rest → Nested (.save :: rest)
  | scope {body rest : List Instruction} : Nested body → Nested rest → Nested (.scope body :: rest)

theorem Nested.tail {i : Instruction} {rest : List Instruction} (nested : Nested (i :: rest)) :
    Nested rest := by
  cases nested with
  | alloc _ rest | save rest | scope _ rest => exact rest

/-- What an instruction has taken that came to this reply. -/
def taken : Instruction → Reply → List Region
  | .alloc size, .address start => [⟨start, size⟩]
  | _, _ => []

end Instruction

/-- How far a run has come, with the allocations that no scope has given back yet, the latest
first. -/
structure Stage (σ : Type) where
  machine : Machine σ
  live : List Region := []

namespace Stage

open Instruction

/-- The stage after one instruction more. -/
def after (e : Engine σ) (i : Instruction) (s : Stage σ) : Stage σ :=
  let (reply, m) := run e i s.machine
  ⟨(e.save m).2, i.taken reply ++ s.live⟩

/-- A run comes past a stage, perhaps in the middle of a scope. In a scope it stops at the first
instruction that fails. -/
inductive Meets (e : Engine σ) : Bool → List Instruction → Stage σ → Stage σ → Prop
  | here {stops : Bool} {program : List Instruction} {s : Stage σ} : Meets e stops program s s
  | next {stops : Bool} {i : Instruction} {rest : List Instruction} {s t : Stage σ}
    (goes : stops = true → (run e i s.machine).1.isFailed = false)
    (further : Meets e stops rest (s.after e i) t) : Meets e stops (i :: rest) s t
  | within {stops : Bool} {body rest : List Instruction} {s t : Stage σ}
    (inside : Meets e true body { s with machine := (e.save s.machine).2 } t) :
    Meets e stops (.scope body :: rest) s t

end Stage

namespace Instruction

variable {e : Engine σ} {n : Nat} {body rest program : List Instruction}

theorem run_scope (e : Engine σ) (body : List Instruction) (m : Machine σ) :
    run e (.scope body) m =
      (.scope (e.save m).1 (runUntilFailed e body (e.save m).2).1,
        e.restore (e.save m).1 (runUntilFailed e body (e.save m).2).2) := by
  rw [run]

theorem runUntilFailed_of_failed {i : Instruction} {m : Machine σ}
    (failed : (run e i m).1.isFailed = true) :
    runUntilFailed e (i :: rest) m =
      ([((run e i m).1, (e.save (run e i m).2).1)], (e.save (run e i m).2).2) := by
  rw [runUntilFailed]
  show (if (run e i m).1.isFailed = true then _ else _) = _
  rw [if_pos failed]

theorem runUntilFailed_of_not_failed {i : Instruction} {m : Machine σ}
    (going : ¬ (run e i m).1.isFailed = true) :
    runUntilFailed e (i :: rest) m =
      (((run e i m).1, (e.save (run e i m).2).1) ::
        (runUntilFailed e rest (e.save (run e i m).2).2).1,
        (runUntilFailed e rest (e.save (run e i m).2).2).2) := by
  rw [runUntilFailed]
  show (if (run e i m).1.isFailed = true then _ else _) = _
  rw [if_neg going]

theorem runAll_cons (e : Engine σ) (i : Instruction) (rest : List Instruction) (m : Machine σ) :
    runAll e (i :: rest) m =
      (((run e i m).1, (e.save (run e i m).2).1) :: (runAll e rest (e.save (run e i m).2).2).1,
        (runAll e rest (e.save (run e i m).2).2).2) := by
  rw [runAll]

section

variable (parse : ParseCall → Action (Linear τ) Int)

theorem run_alloc_of_fitsNext {m : Machine (Linear τ)} (fits : m.control.scratch.FitsNext n) :
    run (.linear parse) (.alloc n) m =
      (.address (m.control.scratch.place n), Linear.restore (m.control.scratch.place n) m) := by
  have taken : (Engine.linear parse).alloc n m = _ := Linear.alloc_of_fitsNext fits
  rw [run, taken]
  rfl

theorem run_alloc_of_not_fitsNext {m : Machine (Linear τ)}
    (full : ¬ m.control.scratch.FitsNext n) :
    run (.linear parse) (.alloc n) m =
      (.failed (.stackOverflow n m.control.scratch.available), m) := by
  have refused : (Engine.linear parse).alloc n m = _ := Linear.alloc_of_not_fitsNext full
  rw [run, refused]

theorem run_save (m : Machine (Linear τ)) :
    run (.linear parse) .save m = (.address m.control.scratch.pointer, m) := by
  rw [run]
  rfl

theorem run_scope_of_moved {m : Machine (Linear τ)} {pointer : Nat}
    (moved : (runUntilFailed (.linear parse) body m).2 = Linear.restore pointer m) :
    run (.linear parse) (.scope body) m =
      (.scope m.control.scratch.pointer (runUntilFailed (.linear parse) body m).1, m) := by
  have back := congrArg (Linear.restore m.control.scratch.pointer) moved
  rw [run_scope]
  exact Prod.ext rfl back

/-- All that a nested program changes, as far as it runs, is the pointer. -/
theorem machine_runUntilFailed (nested : Nested program) (m : Machine (Linear τ)) :
    ∃ pointer, (runUntilFailed (.linear parse) program m).2 = Linear.restore pointer m := by
  induction nested generalizing m with
  | nil =>
    rw [runUntilFailed]
    exact ⟨m.control.scratch.pointer, rfl⟩
  | @alloc n rest _ ih =>
    by_cases fits : m.control.scratch.FitsNext n
    · have run := run_alloc_of_fitsNext parse fits
      obtain ⟨pointer, further⟩ := ih (Linear.restore (m.control.scratch.place n) m)
      rw [runUntilFailed_of_not_failed (by rw [run]; exact nofun), run]
      exact ⟨pointer, further⟩
    · have run := run_alloc_of_not_fitsNext parse fits
      rw [runUntilFailed_of_failed (by rw [run]; rfl), run]
      exact ⟨m.control.scratch.pointer, rfl⟩
  | save _ ih =>
    have run := run_save parse m
    obtain ⟨pointer, further⟩ := ih m
    rw [runUntilFailed_of_not_failed (by rw [run]; exact nofun), run]
    exact ⟨pointer, further⟩
  | @scope body rest _ _ inner ih =>
    obtain ⟨_, moved⟩ := inner m
    have run := run_scope_of_moved parse moved
    obtain ⟨pointer, further⟩ := ih m
    rw [runUntilFailed_of_not_failed (by rw [run]; exact nofun), run]
    exact ⟨pointer, further⟩

/-- A scope leaves the machine as it was, wherever its body broke off. -/
theorem run_scope_of_nested (nested : Nested body) (m : Machine (Linear τ)) :
    run (.linear parse) (.scope body) m =
      (.scope m.control.scratch.pointer (runUntilFailed (.linear parse) body m).1, m) := by
  obtain ⟨_, moved⟩ := machine_runUntilFailed parse nested m
  exact run_scope_of_moved parse moved

end

end Instruction

namespace Stage

open Instruction

variable {parse : ParseCall → Action (Linear τ) Int} {size room : Nat}
  {program : List Instruction} {stops : Bool} {s t : Stage (Linear τ)}

/-- The allocations lie apart between the pointer and the top of the stack. -/
structure Sound (size room : Nat) (s : Stage (Linear τ)) : Prop where
  memory : s.machine.memory.size = size
  bounds : s.machine.control.scratch.InBounds size room
  apart : s.live.Pairwise Region.Disjoint
  above : ∀ r ∈ s.live, r.Within s.machine.control.scratch.pointer (alignDown size)

theorem sound_start (size room : Nat) (own : τ) :
    Sound size room ⟨Linear.machine size room own, []⟩ :=
  ⟨Array.size_replicate, Scratch.inBounds_atTop size room, .nil, nofun⟩

theorem Sound.alloc {n : Nat} (sound : s.Sound size room)
    (fits : s.machine.control.scratch.FitsNext n) :
    Sound size room ⟨Linear.restore (s.machine.control.scratch.place n) s.machine,
      ⟨s.machine.control.scratch.place n, n⟩ :: s.live⟩ := by
  have below := Scratch.place_add_le fits
  have down := Scratch.place_le s.machine.control.scratch n
  have top := sound.bounds.pointer_le
  refine ⟨sound.memory, sound.bounds.push fits, List.pairwise_cons.2 ⟨?_, sound.apart⟩, ?_⟩
  · intro r live
    exact .inl (Nat.le_trans below (sound.above r live).1)
  · intro r live
    rcases List.mem_cons.1 live with rfl | live
    · exact ⟨Nat.le_refl _, Nat.le_trans below top⟩
    · obtain ⟨low, high⟩ := sound.above r live
      exact ⟨Nat.le_trans down low, high⟩

theorem Sound.after {i : Instruction} {rest : List Instruction} (sound : s.Sound size room)
    (nested : Nested (i :: rest)) : (s.after (.linear parse) i).Sound size room := by
  cases nested with
  | alloc n _ =>
    by_cases fits : s.machine.control.scratch.FitsNext n
    · rw [Stage.after, run_alloc_of_fitsNext parse fits]
      exact sound.alloc fits
    · rw [Stage.after, run_alloc_of_not_fitsNext parse fits]
      exact sound
  | save _ =>
    rw [Stage.after, run_save parse]
    exact sound
  | scope inside _ =>
    rw [Stage.after, run_scope_of_nested parse inside]
    exact sound

theorem Sound.of_meets (meets : Meets (.linear parse) stops program s t)
    (nested : Nested program) (sound : s.Sound size room) : t.Sound size room := by
  induction meets with
  | here => exact sound
  | next _ _ ih => exact ih nested.tail (sound.after nested)
  | within _ ih =>
    cases nested with
    | scope inside _ => exact ih inside sound

theorem Sound.alloc_eq (sound : s.Sound size room) (n : Nat) :
    let pointer := s.machine.control.scratch.pointer
    let limit := s.machine.control.scratch.limit
    Linear.alloc n s.machine =
      if alignUp n ≤ pointer - limit then
        (.ok (pointer - alignUp n), Linear.restore (pointer - alignUp n) s.machine)
      else (.error (.stackOverflow n (pointer - limit)), s.machine) := by
  intro pointer limit
  have iff : s.machine.control.scratch.FitsNext n ↔ alignUp n ≤ pointer - limit :=
    Scratch.fitsNext_iff sound.bounds
  by_cases fits : s.machine.control.scratch.FitsNext n
  · rw [if_pos (iff.1 fits), Linear.alloc_of_fitsNext fits, Scratch.push,
      Scratch.place_eq sound.bounds fits]
    rfl
  · rw [if_neg (mt iff.2 fits), Linear.alloc_of_not_fitsNext fits]
    rfl

/-- A run comes past the end of each part of its program. -/
theorem meets_runAll (e : Engine σ) (before after : List Instruction) (s : Stage σ) :
    ∃ live, Meets e false (before ++ after) s ⟨(runAll e before s.machine).2, live⟩ := by
  induction before generalizing s with
  | nil =>
    rw [runAll]
    exact ⟨s.live, .here⟩
  | cons i before ih =>
    obtain ⟨live, meets⟩ := ih (s.after e i)
    rw [runAll_cons]
    exact ⟨live, .next nofun meets⟩

end Stage

namespace Instruction

/-- However scopes are nested, the pointer stays within the bounds of the stack, an allocation is
refused only when it does not fit, what is taken lies apart in the memory, and a program goes on
after a scope as if it had never run. -/
theorem scopes_never_overlap {program : List Instruction}
    (parse : ParseCall → Action (Linear τ) Int) (own : τ) (size room : Nat)
    (nested : Nested program) :
    let e := Engine.linear parse
    let start : Stage (Linear τ) := ⟨Linear.machine size room own, []⟩
    (∀ before after, program = before ++ after →
        ∃ live, Stage.Meets e false program start ⟨(runAll e before start.machine).2, live⟩) ∧
      ∀ s, Stage.Meets e false program start s →
        let m := s.machine
        let pointer := m.control.scratch.pointer
        let limit := m.control.scratch.limit
        (limit = alignDown size - room ∧ limit ≤ pointer ∧ pointer ≤ alignDown size ∧
          alignDown size ≤ m.memory.size ∧ pointer % 16 = 0) ∧
        (∀ n, e.alloc n m =
          if alignUp n ≤ pointer - limit then
            (.ok (pointer - alignUp n), Linear.restore (pointer - alignUp n) m)
          else (.error (.stackOverflow n (pointer - limit)), m)) ∧
        (s.live.Pairwise Region.Disjoint ∧ ∀ r ∈ s.live, r.Within limit (alignDown size)) ∧
        ∀ body, Nested body → ∀ rest,
          let reply := Reply.scope pointer (runUntilFailed e body m).1
          run e (.scope body) m = (reply, m) ∧
            runAll e (.scope body :: rest) m =
              ((reply, pointer) :: (runAll e rest m).1, (runAll e rest m).2) ∧
            runUntilFailed e (.scope body :: rest) m =
              ((reply, pointer) :: (runUntilFailed e rest m).1, (runUntilFailed e rest m).2) := by
  intro e start
  constructor
  · rintro before after rfl
    exact Stage.meets_runAll e before after start
  · intro s meets m pointer limit
    have sound := Stage.Sound.of_meets meets nested (Stage.sound_start size room own)
    have bounds := sound.bounds
    refine ⟨⟨bounds.limit, bounds.limit_le, bounds.pointer_le, ?_, bounds.aligned⟩,
      sound.alloc_eq, ⟨sound.apart, ?_⟩, ?_⟩
    · rw [sound.memory]
      exact Scratch.alignDown_le size
    · intro r live
      obtain ⟨low, high⟩ := sound.above r live
      exact ⟨Nat.le_trans bounds.limit_le low, high⟩
    · intro body inside rest reply
      have traceless : run e (.scope body) m = (reply, m) := run_scope_of_nested parse inside m
      refine ⟨traceless, ?_, ?_⟩
      · rw [runAll_cons, traceless]
        rfl
      · rw [runUntilFailed_of_not_failed (by rw [traceless]; exact nofun), traceless]
        rfl

theorem scopes_never_overlap_of_overflow :
    let program : List Instruction :=
      [.alloc 5, .scope [.alloc 1, .save, .scope [.alloc 1000, .alloc 1], .alloc 17], .alloc 0]
    let e : Engine (Linear Unit) := .linear fun _ m => (.ok 0, m)
    let s : Stage (Linear Unit) :=
      ⟨Linear.restore 32 (Linear.machine 100 70 ()), [⟨32, 17⟩, ⟨64, 1⟩, ⟨80, 5⟩]⟩
    Nested program ∧ Stage.Meets e false program ⟨Linear.machine 100 70 (), []⟩ s ∧
      s.live.Pairwise Region.Disjoint ∧ (∀ r ∈ s.live, r.Within 26 96) ∧
      e.alloc 7 s.machine = (.error (.stackOverflow 7 6), s.machine) := by
  intro program e s
  have nested : Nested program :=
    .alloc 5 (.scope (.alloc 1 (.save (.scope (.alloc 1000 (.alloc 1 .nil)) (.alloc 17 .nil))))
      (.alloc 0 .nil))
  have meets : Stage.Meets e false program ⟨Linear.machine 100 70 (), []⟩ s := by
    refine .next nofun (.within ?_)
    show Stage.Meets e true _ ⟨Linear.restore 80 (Linear.machine 100 70 ()), [⟨80, 5⟩]⟩ s
    refine .next (fun _ => rfl) ?_
    show Stage.Meets e true _
      ⟨Linear.restore 64 (Linear.machine 100 70 ()), [⟨64, 1⟩, ⟨80, 5⟩]⟩ s
    refine .next (fun _ => rfl) (.next (fun _ => rfl) ?_)
    -- the scope within has overflowed and left nothing
    show Stage.Meets e true _
      ⟨Linear.restore 64 (Linear.machine 100 70 ()), [⟨64, 1⟩, ⟨80, 5⟩]⟩ s
    exact .next (fun _ => rfl) .here
  obtain ⟨-, alloc, ⟨apart, inside⟩, -⟩ :=
    (scopes_never_overlap (fun _ m => (.ok 0, m)) () 100 70 nested).2 s meets
  exact ⟨nested, meets, apart, inside, alloc 7⟩

end Instruction

end SchemaHighlighter
