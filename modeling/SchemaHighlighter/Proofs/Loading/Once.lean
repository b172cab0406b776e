import SchemaHighlighter.Loading.ModuleFile

/-! # The engine is loaded once

Requests come to a handle one after another, and its source may change between any two of them.
As long as every load fails, each request tries one. The first load that succeeds is the last,
and every request from then on works on the engine that it gave. -/
namespace SchemaHighlighter

variable {κ σ α : Type}

/-- A source, and the outcomes of all loads from it, in order. -/
structure Noted (κ σ : Type) where
  source : κ
  outcomes : List (Except EngineError (Machine σ)) := []

/-- The same loader, which notes its outcomes. -/
def Loader.noting (load : Loader κ σ) : Loader (Noted κ σ) σ := fun cancelled n =>
  ((load cancelled n.source).1,
    ⟨(load cancelled n.source).2, n.outcomes ++ [(load cancelled n.source).1]⟩)

/-- A request, and what becomes of the source just before it. -/
structure Visit (κ σ α : Type) extends EngineRequest σ α where
  meanwhile : κ → κ := fun source => source

/-- An engine as requests leave it, one after another. -/
def workAll (m : Machine σ) (visits : List (Visit κ σ α)) : Machine σ :=
  visits.foldl (fun m v => (v.work m).2) m

namespace Handle

/-- Serves one visitor. -/
def visit (h : Handle (Noted κ σ) σ) (load : Loader κ σ) (v : Visit κ σ α) :
    Served (Noted κ σ) σ α :=
  { h with source := { h.source with source := v.meanwhile h.source.source } }.withEngine
    load.noting v.cancelled v.work

/-- A handle that begins empty, after some visits. -/
def after (load : Loader κ σ) (source : κ) (visits : List (Visit κ σ α)) :
    Handle (Noted κ σ) σ :=
  visits.foldl (fun h v => (h.visit load v).handle) { source := ⟨source, []⟩ }

/-- What a load from the handle's source comes to during a visit. -/
def attempt (h : Handle (Noted κ σ) σ) (load : Loader κ σ) (v : Visit κ σ α) :
    Except EngineError (Machine σ) :=
  (load v.cancelled (v.meanwhile h.source.source)).1

/-- How a handle stands after some visits. Either each of them has failed to load the engine,
or one has loaded it after those before it had failed, and all from that one on have used it. -/
inductive Stands (past : List (Visit κ σ α)) : Handle (Noted κ σ) σ → Prop
  | empty (source : κ) (errors : List EngineError) (all : errors.length = past.length) :
      Stands past ⟨none, source, errors.map .error⟩
  | loaded (source : κ) (errors : List EngineError) (m : Machine σ)
      (within : errors.length < past.length) :
      Stands past ⟨some (workAll m (past.drop errors.length)), source,
        errors.map .error ++ [.ok m]⟩

variable {load : Loader κ σ} {h : Handle (Noted κ σ) σ} {past : List (Visit κ σ α)}
  {v : Visit κ σ α}

theorem workAll_concat (m : Machine σ) (visits : List (Visit κ σ α)) (v : Visit κ σ α) :
    workAll m (visits ++ [v]) = (v.work (workAll m visits)).2 := List.foldl_append

/-- What a visit does to a handle that is loaded. -/
theorem visit_of_loaded (m : Machine σ) (n : Noted κ σ) (load : Loader κ σ) (v : Visit κ σ α) :
    visit ⟨some m, n⟩ load v =
      ⟨.ok (v.work m).1, [], ⟨some (v.work m).2, v.meanwhile n.source, n.outcomes⟩⟩ := rfl

theorem visit_of_ok {n : Noted κ σ} {m : Machine σ} {source : κ}
    (loads : load v.cancelled (v.meanwhile n.source) = (.ok m, source)) :
    visit ⟨none, n⟩ load v =
      ⟨.ok (v.work m).1, [], ⟨some (v.work m).2, source, n.outcomes ++ [.ok m]⟩⟩ := by
  rw [visit, withEngine, Loader.noting, loads]

theorem visit_of_error {n : Noted κ σ} {e : EngineError} {source : κ}
    (fails : load v.cancelled (v.meanwhile n.source) = (.error e, source)) :
    visit ⟨none, n⟩ load v =
      ⟨.error e, loadLog e, ⟨none, source, n.outcomes ++ [.error e]⟩⟩ := by
  rw [visit, withEngine, Loader.noting, fails]

theorem Stands.visit (stands : Stands past h) (load : Loader κ σ) (v : Visit κ σ α) :
    Stands (past ++ [v]) (h.visit load v).handle := by
  have one_more : (past ++ [v]).length = past.length + 1 := List.length_append
  cases stands with
  | empty source errors all =>
    rcases tried : load v.cancelled (v.meanwhile source) with ⟨e | m, rest⟩
    · rw [visit_of_error tried]
      have more : (errors ++ [e]).length = (past ++ [v]).length := by
        rw [one_more, ← all]
        exact List.length_append
      have stands := Stands.empty (σ := σ) rest (errors ++ [e]) more
      rwa [List.map_append] at stands
    · rw [visit_of_ok tried]
      have within : errors.length < (past ++ [v]).length := by
        rw [one_more, all]
        exact Nat.lt_succ_self _
      have stands := Stands.loaded rest errors m within
      rwa [all, List.drop_left] at stands
  | loaded source errors m within =>
    -- the engine of the first success stays, and one more has worked on it
    rw [visit_of_loaded]
    have stands := Stands.loaded (v.meanwhile source) errors m
      (Nat.lt_of_lt_of_eq (Nat.lt_succ_of_lt within) one_more.symm)
    rwa [List.drop_append_of_le_length (Nat.le_of_lt within), workAll_concat] at stands

theorem Stands.foldl (stands : Stands past h) (load : Loader κ σ) (visits : List (Visit κ σ α)) :
    Stands (past ++ visits) (visits.foldl (fun h v => (h.visit load v).handle) h) := by
  induction visits generalizing h past with
  | nil => exact (List.append_nil past).symm ▸ stands
  | cons v visits ih =>
    rw [List.foldl_cons, List.append_cons]
    exact ih (stands.visit load v)

theorem stands_after (load : Loader κ σ) (source : κ) (past : List (Visit κ σ α)) :
    Stands past (after load source past) := by
  have start : Stands ([] : List (Visit κ σ α)) { source := ⟨source, []⟩ } :=
    .empty source [] rfl
  exact start.foldl load past

/-- What is to be had of a visit, given the visits before it. -/
structure ServesOnce (load : Loader κ σ) (past : List (Visit κ σ α)) (v : Visit κ σ α)
    (h : Handle (Noted κ σ) σ) (served : Served (Noted κ σ) σ α) : Prop where
  /-- The handle is loaded if a load has succeeded before. -/
  isLoaded_iff : h.isLoaded ↔ ∃ m, .ok m ∈ h.source.outcomes
  /-- The visit tries one load if none has succeeded before, and else none. -/
  outcomes : served.handle.source.outcomes =
    h.source.outcomes ++ if h.isLoaded then [] else [h.attempt load v]
  /-- The visit's work is done if the engine is there or can be loaded. -/
  done_iff : (∃ a, served.outcome = .ok a) ↔ h.isLoaded ∨ ∃ m, h.attempt load v = .ok m
  /-- Work that is done is done on the only engine that was ever loaded, as all work since then
  has left it. -/
  work : ∀ a, served.outcome = .ok a → ∃ (errors : List EngineError) (m : Machine σ),
    served.handle.source.outcomes = errors.map .error ++ [.ok m] ∧
    a = (v.work (workAll m (past.drop errors.length))).1 ∧
    served.handle.engine = some (v.work (workAll m (past.drop errors.length))).2 ∧
    served.log = []
  /-- The error of a load is answered and logged, unless it was cancelled, and the handle stays
  empty. -/
  failed : ∀ e, h.isLoaded = false → h.attempt load v = .error e →
    served.outcome = .error e ∧ served.handle.isLoaded = false ∧
    served.log = if e = .cancelled then [] else [.loadFailed e]
  stays : h.isLoaded → served.handle.isLoaded

theorem loadLog_eq (e : EngineError) :
    loadLog e = if e = .cancelled then [] else [.loadFailed e] := by
  cases e <;> rfl

theorem Stands.servesOnce (stands : Stands past h) (load : Loader κ σ) (v : Visit κ σ α) :
    ServesOnce load past v h (h.visit load v) := by
  cases stands with
  | empty source errors all =>
    have failures : ¬∃ m : Machine σ, Except.ok m ∈ errors.map Except.error := by
      rintro ⟨m, mem⟩
      obtain ⟨e, -, ⟨⟩⟩ := List.mem_map.1 mem
    rcases tried : load v.cancelled (v.meanwhile source) with ⟨e | m, rest⟩
    · have attempt : attempt ⟨none, source, errors.map .error⟩ load v = .error e :=
        congrArg Prod.fst tried
      rw [visit_of_error tried]
      constructor
      case isLoaded_iff => exact iff_of_false nofun failures
      case outcomes => rw [attempt]; rfl
      case done_iff =>
        refine iff_of_false nofun ?_
        rintro (⟨⟨⟩⟩ | ⟨m, loads⟩)
        cases attempt.symm.trans loads
      case work => nofun
      case failed =>
        intro e' _ fails
        cases attempt.symm.trans fails
        exact ⟨rfl, rfl, loadLog_eq e⟩
      case stays => nofun
    · have attempt : attempt ⟨none, source, errors.map .error⟩ load v = .ok m :=
        congrArg Prod.fst tried
      rw [visit_of_ok tried]
      constructor
      case isLoaded_iff => exact iff_of_false nofun failures
      case outcomes => rw [attempt]; rfl
      case done_iff => exact iff_of_true ⟨_, rfl⟩ (.inr ⟨m, attempt⟩)
      case work =>
        rintro _ ⟨⟩
        refine ⟨errors, m, rfl, ?_⟩
        rw [all, List.drop_length]
        exact ⟨rfl, rfl, rfl⟩
      case failed =>
        intro e _ fails
        cases attempt.symm.trans fails
      case stays => nofun
  | loaded source errors m within =>
    rw [visit_of_loaded]
    constructor
    case isLoaded_iff => exact iff_of_true rfl ⟨m, List.mem_append_right _ List.mem_cons_self⟩
    case outcomes => exact (List.append_nil _).symm
    case done_iff => exact iff_of_true ⟨_, rfl⟩ (.inl rfl)
    case work =>
      rintro _ ⟨⟩
      exact ⟨errors, m, rfl, rfl, rfl, rfl⟩
    case failed => nofun
    case stays => exact fun _ => rfl

end Handle

/-- A file that is a module: its bytes begin with the header. -/
def FileNode.IsModule (node : FileNode) : Prop :=
  ∃ content, node = .file content ∧ moduleHeader <+: content

/-- What an attempt to load a module comes to, together with the files after it. A module is handed
on with all its bytes, unless the request has been cancelled before or is while the file is being
read. In any other case nothing is handed on, and the error says why. -/
inductive ModuleFiles.Loads (path : String)
    (instantiate : List UInt8 → Except EngineError (Machine σ)) (s : ModuleFiles) :
    Bool → Except EngineError (Machine σ) × ModuleFiles → Prop
  | cancelled : Loads path instantiate s true (.error .cancelled, s)
  | missing (cause : SystemError) (absent : Path.ofString path >>= s.tree.find = .error cause) :
      Loads path instantiate s false (.error (.moduleNotFound path), s)
  | directory (found : Path.ofString path >>= s.tree.find = .ok .directory) :
      Loads path instantiate s false (.error (.io path SystemError.isDirectory.message), s)
  | unfit (node : FileNode) (found : Path.ofString path >>= s.tree.find = .ok node)
      (readable : node ≠ .directory) (unlike : ¬ node.IsModule) :
      Loads path instantiate s false (.error (notModule path), s)
  | interrupted (node : FileNode) (found : Path.ofString path >>= s.tree.find = .ok node)
      (fit : node.IsModule) (late : s.interrupts = true) :
      Loads path instantiate s false (.error .cancelled, s)
  | whole (content : List UInt8) (found : Path.ofString path >>= s.tree.find = .ok (.file content))
      (header : moduleHeader <+: content) (still : s.interrupts = false) :
      Loads path instantiate s false
        (instantiate content, { s with handedOn := content :: s.handedOn })

theorem ModuleFiles.loads_of_file {path : String} {s : ModuleFiles} {content : List UInt8}
    (instantiate : List UInt8 → Except EngineError (Machine σ))
    (found : Path.ofString path >>= s.tree.find = .ok (.file content)) :
    s.Loads path instantiate false (moduleLoader path instantiate false s) := by
  rw [moduleLoader, if_neg nofun, readModule, found]
  dsimp only
  by_cases header : moduleHeader <+: content
  · rw [if_pos (List.isPrefixOf_iff_prefix.2 header)]
    dsimp only
    split
    case isTrue late => exact .interrupted _ found ⟨content, rfl, header⟩ late
    case isFalse still => exact .whole content found header (Bool.eq_false_iff.2 still)
  · rw [if_neg (mt List.isPrefixOf_iff_prefix.1 header)]
    refine .unfit _ found nofun ?_
    rintro ⟨_, ⟨⟩, header'⟩
    exact header header'

theorem ModuleFiles.loads_moduleLoader (path : String)
    (instantiate : List UInt8 → Except EngineError (Machine σ)) (cancelled : Bool)
    (s : ModuleFiles) :
    s.Loads path instantiate cancelled (moduleLoader path instantiate cancelled s) := by
  cases cancelled with
  | true => exact .cancelled
  | false =>
    rcases found : Path.ofString path >>= s.tree.find with cause | content | name | -
    case error =>
      rw [moduleLoader, if_neg nofun, readModule, found]
      exact .missing cause found
    case ok.file => exact loads_of_file instantiate found
    case ok.program =>
      rw [moduleLoader, if_neg nofun, readModule, found]
      exact .unfit _ found nofun (by rintro ⟨_, ⟨⟩, -⟩)
    case ok.directory =>
      rw [moduleLoader, if_neg nofun, readModule, found]
      exact .directory found

/-- The engine is loaded at most once, and each request tries it until then. A loader of modules
hands on a file once for each attempt, or not at all and says why. -/
theorem Handle.loads_once (load : Loader κ σ) (source : κ) (past : List (Visit κ σ α))
    (v : Visit κ σ α) :
    ServesOnce load past v (after load source past) ((after load source past).visit load v) ∧
      moduleHeader.length = 8 ∧
      ∀ path (instantiate : List UInt8 → Except EngineError (Machine σ)) cancelled files,
        ModuleFiles.Loads path instantiate files cancelled
          (moduleLoader path instantiate cancelled files) :=
  ⟨(stands_after load source past).servesOnce load v, rfl, ModuleFiles.loads_moduleLoader⟩

/-- A load fails, one is cancelled, the third succeeds, and the fourth visit finds the engine as
the third has left it. -/
theorem Handle.loads_once_of_retries :
    let load : Loader Trial Nat := Trial.loader ⟨⟨#[]⟩, 0⟩
    let source : Trial := { outcomes := [some (.moduleNotFound "engine"), none], observes := true }
    let count : Machine Nat → Nat × Machine Nat := fun m =>
      (m.control, { m with control := m.control + 1 })
    let past : List (Visit Trial Nat Nat) :=
      [{ work := count }, { cancelled := true, work := count }, { work := count }]
    let served := (after load source past).visit load { work := count }
    served.outcome.toOption = some 1 ∧ served.handle.source.outcomes.length = 3 ∧
      ServesOnce load past { work := count } (after load source past) served := by
  intro load source count past served
  exact ⟨rfl, rfl, (loads_once load source past { work := count }).1⟩

end SchemaHighlighter
