import Mathlib.Data.List.Forall2
import SchemaHighlighter.Highlight.Highlighter
import SchemaHighlighter.Proofs.Engine.Oblivious
import SchemaHighlighter.Proofs.Highlight.Windowing

/-! # Requests are independent

All requests share one engine, one memory and one scratch stack. An engine whose machines are
interchangeable gives a request the same tokens after any history of other requests, whether
they were served, failed to load, overflowed or were cancelled, as it does right after a load. -/
namespace SchemaHighlighter

namespace Engine

variable {σ : Type} {e : Engine σ} {fit : Machine σ → Prop} {rest : Text}
  {outcome outcome' : Except EngineError ParseResult}

theorem status_of_withoutId {result result' : ParseResult}
    (same : result'.withoutId = result.withoutId) : result'.status = result.status := by
  rw [← result'.status_withoutId, same, result.status_withoutId]

theorem consumed_of_withoutId {result result' : ParseResult}
    (same : result'.withoutId = result.withoutId) : result'.consumed = result.consumed := by
  rw [← result'.consumed_withoutId, same, result.consumed_withoutId]

theorem Final.of_alike {limit : Option Nat} {window : Window} (alike : Alike outcome outcome')
    (final : Final rest limit window outcome) : Final rest limit window outcome' := by
  cases alike with
  | error => exact final
  | ok same =>
    refine ⟨?_, ?_⟩
    · rintro _ ⟨⟩
      rw [Cut, status_of_withoutId same]
      exact final.whole _ rfl
    · rintro _ _ ⟨⟩

/-- A call on one machine of the class has its like on the other. -/
theorem Interchangeable.exists_call (i : Interchangeable e fit) {input : Text}
    {m m' after : Machine σ} (known : fit m) (known' : fit m')
    (run : e.parseStatement input m = (outcome, after)) :
    ∃ outcome' after', e.parseStatement input m' = (outcome', after') ∧
      Alike outcome outcome' ∧ fit after ∧ fit after' := by
  have alike := i.alike input m m' known known'
  have kept := i.keeps input m known
  rw [run] at alike kept
  exact ⟨_, _, rfl, alike, kept, i.keeps input m' known'⟩

/-- The attempts at one statement on two machines of a class. -/
structure WindowedAlike (fit : Machine σ → Prop) (w w' : Windowed σ) : Prop where
  outcome : Alike w.outcome w'.outcome
  window : w'.window = w.window
  kept : fit w.machine
  kept' : fit w'.machine

theorem WindowedAlike.cons {w w' : Windowed σ} (h : WindowedAlike fit w w') (a a' : Attempt) :
    WindowedAlike fit { w with attempts := a :: w.attempts }
      { w' with attempts := a' :: w'.attempts } :=
  ⟨h.outcome, h.window, h.kept, h.kept'⟩

theorem windowedAlike_parseWithin (i : Interchangeable e fit) (rest : Text) (limit : Option Nat)
    (window : Window) (m m' : Machine σ) (known : fit m) (known' : fit m') :
    WindowedAlike fit (e.parseWithin rest limit window m) (e.parseWithin rest limit window m') := by
  -- by the attempts on `m`: those on `m'` see the same windows as long as the outcomes are alike
  induction limit, window, m using parseWithin_induct e rest generalizing m' with
  | last limit window m outcome after run final =>
    obtain ⟨outcome', after', run', alike, kept, kept'⟩ := i.exists_call known known' run
    rw [parseWithin_of_final run final, parseWithin_of_final run' (final.of_alike alike)]
    exact ⟨alike, rfl, kept, kept'⟩
  | longer limit window m result after run cut ih =>
    obtain ⟨outcome', after', run', alike, kept, kept'⟩ := i.exists_call known known' run
    cases alike with
    | @ok _ result' same =>
      have cut' : Cut rest limit window result' := by rwa [Cut, status_of_withoutId same]
      rw [parseWithin_of_cut run cut, parseWithin_of_cut run' cut']
      exact (ih after' kept kept').cons _ _
  | shorter limit window m requested available after fits run long ih =>
    obtain ⟨outcome', after', run', alike, kept, kept'⟩ := i.exists_call known known' run
    cases alike with
    | error =>
      rw [parseWithin_of_overflow run long, parseWithin_of_overflow run' long]
      exact (ih after' kept kept').cons _ _

variable {poll : Machine σ → Bool} {attempts : List Attempt} {window window' : Window}
  {m m' after : Machine σ} {isWord : Char → Bool}

/-- What becomes of a statement on one machine becomes of it on the other, and no window is
carried from one to the other, for both have come to the same. -/
theorem Interchangeable.exists_windowed (i : Interchangeable e fit) (known : fit m)
    (known' : fit m') (run : e.parseWindowed rest window m = ⟨attempts, outcome, window', after⟩) :
    ∃ attempts' outcome' after',
      e.parseWindowed rest window m' = ⟨attempts', outcome', window', after'⟩ ∧
        Alike outcome outcome' ∧ fit after ∧ fit after' := by
  have alike := windowedAlike_parseWithin i rest none window m m' known known'
  rw [← parseWindowed, ← parseWindowed, run] at alike
  cases run' : e.parseWindowed rest window m' with
  | mk attempts' outcome' window'' after' =>
    rw [run'] at alike
    obtain ⟨outcome, rfl, kept, kept'⟩ := alike
    exact ⟨_, _, _, rfl, outcome, kept, kept'⟩

/-- A statement that ends the scan on one machine ends it on the other. -/
theorem Halts.exists_alike {stop : Stop} (alike : Alike outcome outcome')
    (halts : Halts rest attempts outcome stop) (attempts' : List Attempt) :
    ∃ stop', Halts rest attempts' outcome' stop' := by
  cases alike with
  | error error => exact ⟨_, .failed error⟩
  | ok same =>
    cases halts with
    | terminal terminal =>
      rw [← status_of_withoutId same] at terminal
      exact ⟨_, .terminal terminal⟩
    | noProgress resumable nothing =>
      rw [← status_of_withoutId same] at resumable
      rw [← consumed_of_withoutId same] at nothing
      exact ⟨_, .noProgress resumable nothing⟩

/-- A scan that nobody asks to stop gives the same tokens on every machine of the class. -/
theorem tokens_scanFrom_alike (i : Interchangeable e fit) (never : ∀ m, poll m ≠ true)
    (window : Window) (offset : Nat) (cursor : Position) (rest : Text) (m m' : Machine σ)
    (known : fit m) (known' : fit m') :
    fit (e.scanFrom poll window offset cursor rest m).machine ∧
      (e.scanFrom poll window offset cursor rest m').tokens isWord =
        (e.scanFrom poll window offset cursor rest m).tokens isWord := by
  induction window, offset, cursor, rest, m using scanFrom_induct e poll generalizing m' with
  | nil window offset cursor m =>
    rw [scanFrom_nil, scanFrom_nil]
    exact ⟨known, rfl⟩
  | cancelled window offset cursor rest m more cancelled => exact absurd cancelled (never m)
  | halted window offset cursor rest m attempts outcome window' after stop more going run halts =>
    obtain ⟨attempts', outcome', after', run', alike, kept, -⟩ :=
      i.exists_windowed known known' run
    obtain ⟨stop', halts'⟩ := halts.exists_alike alike attempts'
    rw [scanFrom_of_halts more going run halts, scanFrom_of_halts more (never m') run' halts']
    exact ⟨kept, rfl⟩
  | step window offset cursor rest m attempts result window' after more going run resumable
      something ih =>
    obtain ⟨attempts', outcome', after', run', alike, kept, kept'⟩ :=
      i.exists_windowed known known' run
    cases alike with
    | @ok _ result' same =>
      have consumed := consumed_of_withoutId same
      have resumable' : result'.status.code.isTerminal ≠ true := by
        rwa [status_of_withoutId same]
      have something' : Text.takeBytes result'.consumed rest ≠ [] := by rwa [consumed]
      obtain ⟨fit', tokens⟩ := ih after' kept kept'
      rw [scanFrom_of_step more going run resumable something,
        scanFrom_of_step more (never m') run' resumable' something', consumed]
      refine ⟨fit', ?_⟩
      simp only [Scan.tokens, List.flatMap_cons] at tokens ⊢
      rw [tokens, tokens_of_withoutId same _ _ _ attempts' [],
        tokens_of_withoutId rfl _ _ _ attempts []]

/-- A scan that is asked to stop from the first has done nothing. -/
theorem scanFrom_of_always (always : ∀ m, poll m = true) (window : Window) (offset : Nat)
    (cursor : Position) (rest : Text) (m : Machine σ) :
    (e.scanFrom poll window offset cursor rest m).machine = m ∧
      (e.scanFrom poll window offset cursor rest m).tokens isWord = [] := by
  by_cases more : rest = []
  · subst more
    rw [scanFrom_nil]
    exact ⟨rfl, rfl⟩
  · rw [scanFrom_of_cancelled more (always m)]
    exact ⟨rfl, rfl⟩

end Engine

/-- The machines that a load may come to. -/
def Loader.Yields {κ σ : Type} (load : Loader κ σ) (m : Machine σ) : Prop :=
  ∃ cancelled source after, load cancelled source = (.ok m, after)

/-- A request is cancelled before it starts or not at all. -/
def Submission.Settled {σ : Type} (r : Submission σ) : Prop := ∀ m, r.poll m = r.cancelled

namespace Highlighter

variable {κ σ : Type} {h : Highlighter κ σ} {fit : Machine σ → Prop} {r : Submission σ}

theorem scan_eq (h : Highlighter κ σ) (poll : Machine σ → Bool) (request : TokenRequest)
    (m : Machine σ) : h.scan poll request m = h.engine.scan poll request.text
      (request.range.getD (Engine.wholeRange request.text)) m := by
  rw [scan]
  cases request.range <;> rfl

theorem scan_alike (i : Engine.Interchangeable h.engine fit) {poll : Machine σ → Bool}
    (never : ∀ m, poll m ≠ true) (request : TokenRequest) (m m' : Machine σ) (known : fit m)
    (known' : fit m') :
    fit (h.scan poll request m).machine ∧
      (h.scan poll request m').tokens h.isWord = (h.scan poll request m).tokens h.isWord := by
  rw [scan_eq, scan_eq, Engine.scan, Engine.scan]
  split
  · exact ⟨known, rfl⟩
  · exact Engine.tokens_scanFrom_alike i never _ _ _ _ m m' known known'

theorem scan_of_always {poll : Machine σ → Bool} (always : ∀ m, poll m = true)
    (request : TokenRequest) (m : Machine σ) :
    (h.scan poll request m).machine = m ∧ (h.scan poll request m).tokens h.isWord = [] := by
  rw [scan_eq, Engine.scan]
  split
  · exact ⟨rfl, rfl⟩
  · exact Engine.scanFrom_of_always always _ _ _ _ m

/-- What a request came to: the tokens that any machine of the class gives it if it was not
cancelled and found or loaded an engine, and no tokens otherwise. -/
structure ServedFrom (h : Highlighter κ σ) (fit : Machine σ → Prop) (r : Submission σ)
    (s : Highlighted κ σ) : Prop where
  same : r.cancelled = false → s.handle.isLoaded = true → ∀ m source, fit m →
    s.tokens = (h.tokens ⟨some m, source⟩ r).tokens
  nothing : ¬ (r.cancelled = false ∧ s.handle.isLoaded = true) → s.tokens = []

/-- The engine that is left for the next request is again one of the class. -/
structure Answered (h : Highlighter κ σ) (fit : Machine σ → Prop) (r : Submission σ)
    (s : Highlighted κ σ) : Prop extends ServedFrom h fit r s where
  known : ∀ m ∈ s.handle.engine, fit m

theorem answered_of_machine (i : Engine.Interchangeable h.engine fit) (settled : r.Settled)
    {s : Highlighted κ σ} {m : Machine σ} (known : fit m)
    (tokens : s.tokens = (h.scan r.poll r.request m).tokens h.isWord)
    (engine : s.handle.engine = some (h.scan r.poll r.request m).machine) :
    Answered h fit r s := by
  by_cases cancelled : r.cancelled = true
  · have always : ∀ m, r.poll m = true := fun m => (settled m).trans cancelled
    obtain ⟨machine, none⟩ := scan_of_always always r.request m
    refine ⟨⟨?_, ?_⟩, ?_⟩
    · intro uncancelled
      rw [uncancelled] at cancelled
      cases cancelled
    · intro _
      rw [tokens, none]
    · rw [engine, machine]
      rintro _ ⟨⟩
      exact known
  · have never : ∀ m, r.poll m ≠ true := fun m asked => cancelled ((settled m).symm.trans asked)
    refine ⟨⟨?_, ?_⟩, ?_⟩
    · intro _ _ m' source known'
      rw [tokens]
      exact (scan_alike i never r.request m' m known' known).2
    · intro missing
      refine absurd ⟨?_, ?_⟩ missing
      · exact Bool.eq_false_iff.2 cancelled
      · rw [Handle.isLoaded, engine]
        rfl
    · rw [engine]
      rintro _ ⟨⟩
      exact (scan_alike i never r.request m m known known).1

theorem answered_tokens (i : Engine.Interchangeable h.engine fit)
    (yields : ∀ m, h.load.Yields m → fit m) (settled : r.Settled) (handle : Handle κ σ)
    (known : ∀ m ∈ handle.engine, fit m) : Answered h fit r (h.tokens handle r) := by
  obtain ⟨_ | m, source⟩ := handle
  · cases loaded : h.load r.cancelled source with
    | mk outcome source' =>
      cases outcome with
      | error error =>
        have failed : h.tokens ⟨none, source⟩ r = ⟨[], loadLog error, ⟨none, source'⟩⟩ := by
          simp only [tokens, Handle.withEngine, loaded]
        rw [failed]
        refine ⟨⟨?_, ?_⟩, ?_⟩
        · rintro _ ⟨⟩
        · intro _
          rfl
        · rintro _ ⟨⟩
      | ok m =>
        have found : h.tokens ⟨none, source⟩ r =
            ⟨(h.scan r.poll r.request m).tokens h.isWord, (h.scan r.poll r.request m).log,
              ⟨some (h.scan r.poll r.request m).machine, source'⟩⟩ := by
          simp only [tokens, Handle.withEngine, loaded, List.nil_append]
        rw [found]
        exact answered_of_machine i settled (yields m ⟨_, _, _, loaded⟩) rfl rfl
  · exact answered_of_machine i settled (known m rfl) rfl rfl

/-- Along any run of requests each is answered from the class. -/
theorem answered_serve (i : Engine.Interchangeable h.engine fit)
    (yields : ∀ m, h.load.Yields m → fit m) (requests : List (Submission σ))
    (settled : ∀ r ∈ requests, r.Settled) (handle : Handle κ σ)
    (known : ∀ m ∈ handle.engine, fit m) :
    List.Forall₂ (Answered h fit) requests (h.serve handle requests) := by
  induction requests generalizing handle with
  | nil => exact .nil
  | cons r rest ih =>
    have first := answered_tokens i yields (settled r (.head _)) handle known
    exact .cons first (ih (fun r member => settled r (.tail _ member)) _ first.known)

theorem zip_tokens {requests : List (Submission σ)} {served : List (Highlighted κ σ)}
    (answered : List.Forall₂ (Answered h fit) requests served)
    (found : ∀ s ∈ served, s.handle.isLoaded = true) {m : Machine σ} (known : fit m)
    (source : κ) :
    requests.zip (served.map (·.tokens)) = requests.map fun r =>
      (r, if r.cancelled then [] else (h.tokens ⟨some m, source⟩ r).tokens) := by
  induction answered with
  | nil => rfl
  | @cons r s requests served first _ ih =>
    have loaded := found s (.head _)
    have rest := ih fun s member => found s (.tail _ member)
    rw [List.map_cons, List.zip_cons_cons, List.map_cons, rest]
    congr 2
    by_cases cancelled : r.cancelled = true
    · rw [if_pos cancelled]
      apply first.nothing
      rw [cancelled]
      rintro ⟨⟨⟩, -⟩
    · rw [if_neg cancelled]
      exact first.same (Bool.eq_false_iff.2 cancelled) loaded m source known

/-- The order of requests that all find an engine does not matter to any of them. -/
theorem zip_serve_perm (i : Engine.Interchangeable h.engine fit)
    (yields : ∀ m, h.load.Yields m → fit m) {requests requests' : List (Submission σ)}
    (order : requests.Perm requests') (settled : ∀ r ∈ requests, r.Settled) (source : κ)
    (found : ∀ s ∈ h.serve { source } requests, s.handle.isLoaded = true)
    (found' : ∀ s ∈ h.serve { source } requests', s.handle.isLoaded = true) :
    (requests.zip ((h.serve { source } requests).map (·.tokens))).Perm
      (requests'.zip ((h.serve { source } requests').map (·.tokens))) := by
  have empty : ∀ m ∈ (Handle.mk (σ := σ) none source).engine, fit m := by rintro _ ⟨⟩
  have settled' : ∀ r ∈ requests', r.Settled := fun r member => settled r (order.mem_iff.2 member)
  have answered := answered_serve i yields requests settled { source } empty
  have answered' := answered_serve i yields requests' settled' { source } empty
  cases requests with
  | nil =>
    rw [order.nil_eq]
  | cons r rest =>
    -- the engine that the first request leaves behind stands for a fresh one
    have first := answered_tokens i yields (settled r (.head _)) { source } empty
    obtain ⟨m, engine⟩ := Option.isSome_iff_exists.1 (found _ (.head _))
    have known := first.known m engine
    rw [zip_tokens answered found known source, zip_tokens answered' found' known source]
    exact order.map _

variable {τ : Type} {P : Text → Answer} {own : τ → Prop}
  {parse : ParseCall → Action (Linear τ) Int} {load : Loader κ (Linear τ)} {size room : Nat}

theorem inService_machine {state : τ} (owned : own state) :
    Engine.InService size (Scratch.atTop size room) own (Linear.machine size room state) where
  size := by simp [Linear.machine, Memory.zeros, Memory.filled, Memory.size]
  scratch := rfl
  owned := owned

/-- One engine serves all requests as if it had been loaded for each of them. A request that is
not cancelled and finds or loads an engine gets the tokens that it gets from a fresh one, any
other gets none, and so the order of requests that find an engine is of no account. -/
theorem serve_as_fresh (oblivious : Engine.Oblivious P own parse) (short : size < 0x100000000)
    (yields : ∀ m, load.Yields m → ∃ state, own state ∧ m = Linear.machine size room state)
    (isWord : Char → Bool) (source : κ) :
    let h : Highlighter κ (Linear τ) := ⟨isWord, .linear parse, load⟩
    (∀ requests, (∀ r ∈ requests, r.Settled) →
      List.Forall₂ (h.ServedFrom load.Yields) requests (h.serve { source } requests)) ∧
    (∀ requests requests', (∀ r ∈ requests, r.Settled) → requests.Perm requests' →
      (∀ s ∈ h.serve { source } requests, s.handle.isLoaded = true) →
      (∀ s ∈ h.serve { source } requests', s.handle.isLoaded = true) →
      (requests.zip ((h.serve { source } requests).map (·.tokens))).Perm
        (requests'.zip ((h.serve { source } requests').map (·.tokens)))) ∧
    Engine.Oblivious (fun text => (Grammar.parse text).answer 0) (fun s => s.faults = {})
      Grammar.engine.parse := by
  intro h
  have within : (Scratch.atTop size room).pointer ≤ size := by
    simp only [Scratch.atTop, alignDown]
    omega
  have i : Engine.Interchangeable h.engine
      (Engine.InService size (Scratch.atTop size room) own) :=
    Engine.interchangeable_of_oblivious oblivious short within
  have fresh : ∀ m, h.load.Yields m →
      Engine.InService size (Scratch.atTop size room) own m := by
    intro m yielded
    obtain ⟨state, owned, rfl⟩ := yields m yielded
    exact inService_machine owned
  refine ⟨?_, ?_, Grammar.oblivious_engine⟩
  · intro requests settled
    have answered := answered_serve i fresh requests settled { source } (by rintro _ ⟨⟩)
    apply answered.imp
    intro r s one
    refine ⟨?_, one.nothing⟩
    intro uncancelled loaded m source' yielded
    exact one.same uncancelled loaded m source' (fresh m yielded)
  · intro requests requests' settled order found found'
    exact zip_serve_perm i fresh order settled source found found'

/-- A load that fails, a cancelled request, one that overflows the scratch stack and one for a
range. Where the load does not fail they may come the other way round. -/
theorem serve_as_fresh_of_grammar :
    let load : Loader Trial (Linear Grammar.State) := Trial.loader (Linear.machine 256 128 {})
    let h : Highlighter Trial (Linear Grammar.State) :=
      ⟨Text.isWordChar, .linear Grammar.engine.parse, load⟩
    let text := "package a;\nenum Ä;".toList
    let ranged : Submission (Linear Grammar.State) :=
      { request := { text, range := some ⟨⟨1, 0⟩, ⟨9, 0⟩⟩ } }
    let overflowing : Submission (Linear Grammar.State) :=
      { request := { text := text ++ List.replicate 64 'a' } }
    let cancelled : Submission (Linear Grammar.State) :=
      { request := { text }, cancelled := true, poll := fun _ => true }
    let requests := [ranged, cancelled, overflowing, ranged]
    let requests' := requests.reverse
    let failing : Trial := { outcomes := [some (.trap ""), none] }
    let steady : Trial := { outcomes := [] }
    (256 < 0x100000000 ∧
      (∀ m, load.Yields m →
        ∃ state : Grammar.State, state.faults = {} ∧ m = Linear.machine 256 128 state) ∧
      (∀ r ∈ requests, r.Settled) ∧ requests.Perm requests' ∧
      (∀ s ∈ h.serve { source := steady } requests, s.handle.isLoaded = true) ∧
      ∀ s ∈ h.serve { source := steady } requests', s.handle.isLoaded = true) ∧
    List.Forall₂ (h.ServedFrom load.Yields) requests (h.serve { source := failing } requests) ∧
      (requests.zip ((h.serve { source := steady } requests).map (·.tokens))).Perm
        (requests'.zip ((h.serve { source := steady } requests').map (·.tokens))) := by
  intro load h text ranged overflowing cancelled requests requests' failing steady
  have yields : ∀ m, load.Yields m →
      ∃ state : Grammar.State, state.faults = {} ∧ m = Linear.machine 256 128 state := by
    rintro m ⟨cancelled, source, after, loaded⟩
    simp only [load, Trial.loader] at loaded
    split at loaded
    · cases loaded
    · split at loaded <;> cases loaded
      exact ⟨{}, rfl, rfl⟩
  have settled : ∀ r ∈ requests, r.Settled := by
    simp only [requests, List.forall_mem_cons]
    exact ⟨fun _ => rfl, fun _ => rfl, fun _ => rfl, fun _ => rfl, nofun⟩
  have order : requests.Perm requests' := (List.reverse_perm requests).symm
  have found : ∀ s ∈ h.serve { source := steady } requests, s.handle.isLoaded = true := by
    decide +kernel
  have found' : ∀ s ∈ h.serve { source := steady } requests', s.handle.isLoaded = true := by
    decide +kernel
  refine ⟨⟨by decide, yields, settled, order, found, found'⟩, ?_, ?_⟩
  · exact (serve_as_fresh Grammar.oblivious_engine (by decide) yields Text.isWordChar failing).1
      requests settled
  · exact (serve_as_fresh Grammar.oblivious_engine (by decide) yields Text.isWordChar steady).2.1
      requests requests' settled order found found'

end Highlighter

end SchemaHighlighter
