import SchemaHighlighter.Server.System

/-! # An account of processes

A system grows by what is done to it: processes come one after another, and none that has been
waited for comes back. At any time all of them but one have been waited for, if that one is the
child of the only one who starts any. The pipes of a process are handed out together. -/
namespace SchemaHighlighter

namespace System

variable {s t u : System} {refusal : Refusal} {child : Option Nat} {id : Nat} {p : Process}

theorem getElem?_update (s : System) (id i : Nat) (f : Process → Process) :
    (s.update id f).processes[i]? =
      if id = i then s.processes[i]?.map f else s.processes[i]? := by
  rw [update, List.getElem?_modify]
  split <;> simp

theorem update_congr {f g : Process → Process} (same : ∀ p ∈ s.processes[id]?, f p = g p) :
    s.update id f = s.update id g := by
  have processes : s.processes.modify id f = s.processes.modify id g := by
    apply List.ext_getElem?
    intro i
    rw [List.getElem?_modify, List.getElem?_modify]
    by_cases here : id = i
    · subst here
      cases found : s.processes[id]? with
      | none => rfl
      | some p => simp [same p found]
    · simp [here]
  rw [update, update, processes]

theorem update_eq_self {f : Process → Process} (same : ∀ p ∈ s.processes[id]?, f p = p) :
    s.update id f = s := by
  have processes : s.processes.modify id (fun p => p) = s.processes := List.modify_id ..
  rw [update_congr same, update, processes]

/-- The pipes are handed out where both are left. The second stays only where the first is gone. -/
theorem takePipes_eq (s : System) (id : Nat) :
    s.takePipes id =
      (s.processes[id]?.any fun p => p.hasInput && p.hasOutput, s.update id fun p =>
        { p with hasInput := false, hasOutput := p.hasOutput && !p.hasInput }) := by
  rw [takePipes, takeInput]
  -- the second pipe is asked for only where the first was there
  cases found : s.processes[id]? with
  | none =>
    refine Prod.ext rfl (update_congr ?_)
    rw [found]
    nofun
  | some p =>
    cases input : p.hasInput with
    | false =>
      simp only [Option.any_some, input, Bool.false_and, Prod.mk.injEq, true_and]
      apply update_congr
      rw [found]
      rintro _ ⟨⟩
      simp [input]
    | true =>
      simp only [Option.any_some, input, takeOutput, getElem?_update, found, if_true,
        Option.map_some, Bool.true_and, Prod.mk.injEq, true_and]
      rw [update, update, List.modify_modify_eq]
      apply update_congr
      rw [found]
      rintro _ ⟨⟩
      simp [input]

/-- What stays of a process while its pipes are left alone. -/
structure Keeps (p q : Process) : Prop where
  hasInput : q.hasInput = p.hasInput
  hasOutput : q.hasOutput = p.hasOutput
  reaped : p.state = .reaped → q.state = .reaped

theorem Keeps.refl (p : Process) : Keeps p p := ⟨rfl, rfl, fun reaped => reaped⟩

theorem Keeps.trans {q r : Process} (first : Keeps p q) (second : Keeps q r) : Keeps p r :=
  ⟨second.hasInput.trans first.hasInput, second.hasOutput.trans first.hasOutput,
    fun reaped => second.reaped (first.reaped reaped)⟩

/-- Processes come one after another, each with both of its pipes. -/
structure Grows (s t : System) : Prop where
  length_le : s.processes.length ≤ t.processes.length
  old : ∀ (id : Nat) p, s.processes[id]? = some p → ∃ q, t.processes[id]? = some q ∧ Keeps p q
  new : ∀ (id : Nat) q, s.processes.length ≤ id → t.processes[id]? = some q →
    q.hasInput = true ∧ q.hasOutput = true

theorem Grows.refl (s : System) : Grows s s := by
  refine ⟨Nat.le_refl _, fun id p known => ⟨p, known, .refl p⟩, ?_⟩
  intro id q unknown found
  rw [List.getElem?_eq_none unknown] at found
  cases found

/-- A process was there before, or it is new. -/
theorem Grows.cases {q : Process} (grows : Grows s t) (found : t.processes[id]? = some q) :
    (∃ p, s.processes[id]? = some p ∧ Keeps p q) ∨
      s.processes.length ≤ id ∧ q.hasInput = true ∧ q.hasOutput = true := by
  rcases Nat.lt_or_ge id s.processes.length with old | new
  · have known := List.getElem?_eq_getElem old
    obtain ⟨q', found', kept⟩ := grows.old id _ known
    cases found.symm.trans found'
    exact .inl ⟨_, known, kept⟩
  · exact .inr ⟨new, grows.new id q new found⟩

theorem Grows.trans (first : Grows s t) (second : Grows t u) : Grows s u := by
  refine ⟨Nat.le_trans first.length_le second.length_le, ?_, ?_⟩
  · intro id p known
    obtain ⟨q, between, kept⟩ := first.old id p known
    obtain ⟨r, found, still⟩ := second.old id q between
    exact ⟨r, found, kept.trans still⟩
  · intro id r unknown found
    rcases second.cases found with ⟨q, between, kept⟩ | ⟨-, both⟩
    · rw [kept.hasInput, kept.hasOutput]
      exact first.new id q unknown between
    · exact both

theorem grows_update {f : Process → Process} (s : System) (id : Nat)
    (keeps : ∀ p, Keeps p (f p)) : Grows s (s.update id f) := by
  have length : (s.update id f).processes.length = s.processes.length := List.length_modify ..
  refine ⟨Nat.le_of_eq length.symm, ?_, ?_⟩
  · intro i p known
    rw [getElem?_update, known]
    split
    · exact ⟨f p, rfl, keeps p⟩
    · exact ⟨p, rfl, .refl p⟩
  · intro i q unknown found
    rw [List.getElem?_eq_none (Nat.le_trans (Nat.le_of_eq length) unknown)] at found
    cases found

theorem grows_exit (s : System) (id : Nat) : Grows s (s.exit id) := by
  refine grows_update s id ?_
  intro p
  split
  case isTrue running => exact ⟨rfl, rfl, fun reaped => nomatch running.symm.trans reaped⟩
  case isFalse => exact .refl p

theorem grows_reap (s : System) (id : Nat) : Grows s (s.reap id) := by
  refine grows_update s id ?_
  intro p
  split
  case isTrue => exact ⟨rfl, rfl, fun _ => rfl⟩
  case isFalse => exact .refl p

theorem grows_spawn (refusal : Refusal) (x : Executable) (s : System) :
    Grows s (s.spawn refusal x).2 := by
  have same := Grows.refl s
  rw [spawn]
  split
  case h_1 => exact ⟨same.length_le, same.old, same.new⟩
  case h_2 =>
    refine ⟨(List.prefix_append ..).length_le, ?_, ?_⟩
    · intro i p known
      exact ⟨p, List.getElem?_append_left (List.getElem?_eq_some_iff.1 known).1 ▸ known, .refl p⟩
    · intro i q unknown found
      dsimp only at found
      rw [List.getElem?_append_right unknown] at found
      obtain ⟨rfl⟩ := List.mem_singleton.1 (List.mem_of_getElem? found)
      exact ⟨rfl, rfl⟩

/-- The pipes of some processes have been handed out, both of them and once, and neither pipe of
any other has. -/
structure Handed (s : System) (given : List Nat) : Prop where
  known : ∀ id ∈ given, id < s.processes.length
  once : given.Nodup
  pipes : ∀ (id : Nat) p, s.processes[id]? = some p →
    (p.hasInput = false ↔ id ∈ given) ∧ p.hasOutput = p.hasInput

theorem Handed.grows {given : List Nat} (h : s.Handed given) (grows : Grows s t) :
    t.Handed given := by
  refine ⟨fun id mem => Nat.lt_of_lt_of_le (h.known id mem) grows.length_le, h.once, ?_⟩
  intro id q found
  rcases grows.cases found with ⟨p, known, kept⟩ | ⟨new, input, output⟩
  · rw [kept.hasInput, kept.hasOutput]
    exact h.pipes id p known
  · rw [input, output]
    exact ⟨iff_of_false nofun fun mem => absurd (h.known id mem) (Nat.not_lt.2 new), rfl⟩

/-- Who gets no pipes has changed nothing. -/
theorem Handed.takePipes_snd {given : List Nat} (h : s.Handed given)
    (refused : (s.takePipes id).1 = false) : (s.takePipes id).2 = s := by
  rw [takePipes_eq] at refused ⊢
  dsimp only at refused ⊢
  refine update_eq_self ?_
  intro p found
  have output := (h.pipes id p found).2
  have input : p.hasInput = false := by
    rwa [found, Option.any_some, output, Bool.and_self] at refused
  obtain ⟨executable, state, hasInput, hasOutput⟩ := p
  cases input
  cases output
  rfl

/-- Both pipes of a process that still has them may be handed out. -/
theorem Handed.give {given : List Nat} {f : Process → Process} (h : s.Handed given)
    (known : s.processes[id]? = some p) (there : p.hasInput = true)
    (taken : (f p).hasInput = false ∧ (f p).hasOutput = false) :
    (s.update id f).Handed (given ++ [id]) := by
  have fresh : id ∉ given := by
    intro mem
    rw [(h.pipes id p known).1.2 mem] at there
    cases there
  refine ⟨?_, ?_, ?_⟩
  · intro i mem
    rw [update, List.length_modify]
    rcases List.mem_append.1 mem with before | now
    · exact h.known i before
    · rw [List.mem_singleton.1 now]
      exact (List.getElem?_eq_some_iff.1 known).1
  · rw [List.nodup_append]
    refine ⟨h.once, List.pairwise_singleton .., ?_⟩
    rintro i before j now rfl
    rw [List.mem_singleton.1 now] at before
    exact fresh before
  · intro i q found
    rw [getElem?_update] at found
    split at found
    case isTrue same =>
      subst same
      rw [known, Option.map_some] at found
      cases found
      rw [taken.1, taken.2]
      exact ⟨iff_of_true rfl (List.mem_append_right _ (List.mem_singleton_self id)), rfl⟩
    case isFalse other =>
      obtain ⟨gone, both⟩ := h.pipes i q found
      refine ⟨gone.trans ⟨List.mem_append_left _, fun mem => ?_⟩, both⟩
      rcases List.mem_append.1 mem with before | now
      · exact before
      · exact absurd (List.mem_singleton.1 now).symm other

/-- The pipes of a process are there until they are asked for, and not again after that. -/
theorem Handed.takePipes {given : List Nat} (h : s.Handed given) (id : Nat) :
    (s.takePipes id).2.Handed (given ++ if (s.takePipes id).1 = true then [id] else []) := by
  cases answer : (s.takePipes id).1 with
  | false =>
    rw [h.takePipes_snd answer, if_neg nofun, List.append_nil]
    exact h
  | true =>
    rw [takePipes_eq] at answer ⊢
    obtain ⟨old, here⟩ := (Option.any_eq_true_iff_get ..).1 answer
    have input := (Bool.and_eq_true_iff.1 here).1
    rw [if_pos rfl]
    refine h.give (Option.some_get old).symm input ⟨rfl, ?_⟩
    rw [input, Bool.not_true, Bool.and_false]

/-- Every process but the child has been waited for, and the child has not. -/
structure Accounts (s : System) (child : Option Nat) : Prop where
  reaped : ∀ id p, s.processes[id]? = some p → child ≠ some id → p.state = .reaped
  held : ∀ id, child = some id → ∃ p, s.processes[id]? = some p ∧ p.state ≠ .reaped

theorem Accounts.child_iff (h : s.Accounts child) (id : Nat) :
    child = some id ↔ ∃ p, s.processes[id]? = some p ∧ p.state ≠ .reaped := by
  refine ⟨h.held id, fun ⟨p, found, unreaped⟩ => ?_⟩
  exact Decidable.not_not.1 (mt (h.reaped id p found) unreaped)

theorem Accounts.reaped_of_none (h : s.Accounts none) : ∀ p ∈ s.processes, p.state = .reaped := by
  intro p mem
  obtain ⟨id, found⟩ := List.mem_iff_getElem?.1 mem
  exact h.reaped id p found nofun

/-- Of any two processes one has been waited for. -/
theorem Accounts.pairwise (h : s.Accounts child) :
    s.processes.Pairwise fun p q => p.state = .reaped ∨ q.state = .reaped := by
  rw [List.pairwise_iff_getElem]
  intro i j first second before
  by_cases held : child = some i
  · refine .inr (h.reaped j _ (List.getElem?_eq_getElem second) ?_)
    rw [held]
    exact fun same => Nat.ne_of_lt before (Option.some.inj same)
  · exact .inl (h.reaped i _ (List.getElem?_eq_getElem first) held)

/-- One system comes from another, and all its processes but the child have been waited for. -/
structure Leads (s t : System) (child : Option Nat) : Prop where
  grows : Grows s t
  accounts : t.Accounts child

theorem Leads.refl (h : s.Accounts child) : Leads s s child := ⟨.refl s, h⟩

theorem Leads.trans {child' : Option Nat} (first : Leads s t child)
    (second : Leads t u child') : Leads s u child' :=
  ⟨first.grows.trans second.grows, second.accounts⟩

/-- What has been waited for is never the child again. -/
theorem Leads.child_ne (leads : Leads s t child) (known : s.processes[id]? = some p)
    (reaped : p.state = .reaped) : child ≠ some id := by
  intro held
  obtain ⟨q, found, unreaped⟩ := leads.accounts.held id held
  obtain ⟨q', found', kept⟩ := leads.grows.old id p known
  cases found.symm.trans found'
  exact unreaped (kept.reaped reaped)

/-- What changes no process from or into one that has been waited for keeps the account. -/
theorem Accounts.update {f : Process → Process} (h : s.Accounts child) (id : Nat)
    (same : ∀ p, (f p).state = .reaped ↔ p.state = .reaped) : (s.update id f).Accounts child := by
  constructor
  · intro i p found other
    rw [getElem?_update] at found
    split at found
    · obtain ⟨q, known, rfl⟩ := Option.map_eq_some_iff.1 found
      exact (same q).2 (h.reaped i q known other)
    · exact h.reaped i p found other
  · intro i held
    obtain ⟨p, found, unreaped⟩ := h.held i held
    rw [getElem?_update, found]
    split
    · exact ⟨f p, rfl, mt (same p).1 unreaped⟩
    · exact ⟨p, rfl, unreaped⟩

theorem Accounts.exit (h : s.Accounts child) (id : Nat) : (s.exit id).Accounts child := by
  refine h.update id ?_
  intro p
  split
  case isTrue running =>
    rw [running]
    exact iff_of_false nofun nofun
  case isFalse => exact Iff.rfl

theorem Accounts.takePipes (h : s.Accounts child) (id : Nat) :
    (s.takePipes id).2.Accounts child := by
  rw [takePipes_eq]
  exact h.update id fun _ => Iff.rfl

/-- Once the child has ended and is waited for, there is no child. -/
theorem Accounts.reap (h : s.Accounts (some id)) (ended : s.state? id ≠ some .running) :
    (s.reap id).Accounts none := by
  constructor
  · intro i p found _
    rw [System.reap, getElem?_update] at found
    split at found
    case isTrue same =>
      subst same
      obtain ⟨q, known, rfl⟩ := Option.map_eq_some_iff.1 found
      rw [state?, known] at ended
      obtain ⟨q', known', unreaped⟩ := h.held id rfl
      cases known.symm.trans known'
      cases state : q.state with
      | running => exact absurd (congrArg some state) ended
      | exited => rw [if_pos rfl]
      | reaped => exact absurd state unreaped
    case isFalse other =>
      exact h.reaped i p found fun same => other (Option.some.inj same)
  · rintro _ ⟨⟩

/-- A new process is the child, and nothing of it is known from before. -/
theorem Accounts.spawn (h : s.Accounts none) (refusal : Refusal) (x : Executable) :
    (s.spawn refusal x).2.Accounts (s.spawn refusal x).1.toOption := by
  rw [System.spawn]
  split
  case h_1 => exact ⟨h.reaped, h.held⟩
  case h_2 =>
    constructor
    · intro i p found other
      have old : i ≠ s.processes.length := fun last => other (congrArg some last.symm)
      dsimp only at found
      rw [List.getElem?_append] at found
      split at found
      · exact h.reaped i p found (Option.some_ne_none i).symm
      · rw [List.getElem?_eq_none (by simp; omega)] at found
        cases found
    · rintro _ ⟨⟩
      exact ⟨{ executable := x }, List.getElem?_concat_length, nofun⟩

theorem state?_exit_ne (s : System) (id : Nat) : (s.exit id).state? id ≠ some .running := by
  rw [state?, System.exit, getElem?_update, if_pos rfl, Option.map_map]
  intro running
  obtain ⟨p, -, state⟩ := Option.map_eq_some_iff.1 running
  rw [Function.comp_apply] at state
  split at state
  case isTrue => cases state
  case isFalse other => exact other state

end System

end SchemaHighlighter
