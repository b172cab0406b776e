import SchemaHighlighter.Proofs.Server.Account
import SchemaHighlighter.Server.Session

/-! # No process is lost

Of the processes that a host has started, all but the one that its client holds have been waited
for, whatever is asked of the host or of its client, however often a start fails and whenever a
process ends. Nothing that has been waited for or handed out comes back. -/
namespace SchemaHighlighter

namespace Client

open SchemaHighlighter.System (Leads)

variable {s : System} {refusal : Refusal} {c : Client}

/-- Either the server runs and nothing changes, or the client has no server any more. -/
theorem isRunning_cases (h : s.Accounts c.child) :
    (∃ id, c.child = some id ∧ s.state? id = some .running ∧ c.isRunning s = (true, c, s)) ∨
    ∃ t, Leads s t none ∧ c.isRunning s = (false, { c with child := none }, t) := by
  obtain ⟨executable, _ | id⟩ := c
  · exact .inr ⟨s, .refl h, rfl⟩
  · by_cases running : s.state? id = some .running
    · exact .inl ⟨id, rfl, running, if_pos running⟩
    · exact .inr ⟨s.reap id, ⟨s.grows_reap id, h.reap running⟩, if_neg running⟩

theorem leads_isRunning (h : s.Accounts c.child) :
    Leads s (c.isRunning s).2.2 (c.isRunning s).2.1.child := by
  rcases isRunning_cases h with ⟨id, -, -, same⟩ | ⟨t, leads, gone⟩
  · rw [same]
    exact .refl h
  · rw [gone]
    exact leads

theorem pid_snd (c : Client) (s : System) : (c.pid s).2 = (c.isRunning s).2 := by
  rw [pid]
  split
  case h_1 run => rw [run]
  case h_2 run => rw [run]

/-- A client without a server starts one, and has it if the start succeeds. -/
theorem start_of_gone {t : System} (gone : c.isRunning s = (false, { c with child := none }, t))
    (refusal : Refusal) :
    (c.start refusal s).2 = ({ c with child := (t.spawn refusal c.executable).1.toOption },
      (t.spawn refusal c.executable).2) := by
  rw [start, gone]
  dsimp only
  split
  case h_1 run => rw [run]; rfl
  case h_2 run => rw [run]; rfl

theorem leads_start (refusal : Refusal) (h : s.Accounts c.child) :
    Leads s (c.start refusal s).2.2 (c.start refusal s).2.1.child := by
  rcases isRunning_cases h with ⟨id, -, -, same⟩ | ⟨t, leads, gone⟩
  · rw [start, same]
    exact .refl h
  · rw [start_of_gone gone]
    exact ⟨leads.grows.trans (t.grows_spawn refusal c.executable),
      leads.accounts.spawn refusal c.executable⟩

theorem leads_stop (h : s.Accounts c.child) : Leads s (c.stop s).2 none := by
  obtain ⟨executable, _ | id⟩ := c
  · exact .refl h
  · have grows := (s.grows_exit id).trans (System.grows_reap _ id)
    exact ⟨grows, (h.exit id).reap (s.state?_exit_ne id)⟩

theorem child_stop (c : Client) (s : System) : (c.stop s).1.child = none := by
  obtain ⟨executable, _ | id⟩ := c <;> rfl

theorem accounts_stop (h : s.Accounts c.child) : (c.stop s).2.Accounts (c.stop s).1.child := by
  rw [child_stop]
  exact (leads_stop h).accounts

theorem leads_restart (refusal : Refusal) (h : s.Accounts c.child) :
    Leads s (c.restart refusal s).2.2 (c.restart refusal s).2.1.child :=
  (leads_stop h).trans (leads_start refusal (accounts_stop h))

theorem start_of_running {id : Nat} (held : c.child = some id)
    (running : s.state? id = some .running) : c.start refusal s = (.ok (), c, s) := by
  have same : c.isRunning s = (true, c, s) := by
    rw [isRunning, held]
    exact if_pos running
  rw [start, same]

/-- The process that a client had before it starts another one is not its child any more. -/
theorem child_restart_ne {id : Nat} (refusal : Refusal) (h : s.Accounts c.child)
    (held : c.child = some id) :
    (c.restart refusal s).2.1.child ≠ some id := by
  -- the old process has been waited for before the new one starts
  have stopped := leads_stop h
  obtain ⟨p, known, -⟩ := h.held id held
  obtain ⟨q, found, -⟩ := stopped.grows.old id p known
  have reaped := stopped.accounts.reaped_of_none q (List.mem_of_getElem? found)
  exact (leads_start refusal (accounts_stop h)).child_ne found reaped

theorem leads_step (h : s.Accounts c.child) {event : ClientEvent}
    (other : event ≠ .takePipes) :
    Leads s (c.step refusal s event).2 (c.step refusal s event).1.child := by
  cases event with
  | start => exact leads_start refusal h
  | stop =>
    rw [step, child_stop]
    exact leads_stop h
  | restart => exact leads_restart refusal h
  | askRunning => exact leads_isRunning h
  | askPid =>
    rw [step, pid_snd]
    exact leads_isRunning h
  | takePipes => exact absurd rfl other
  | setExecutable executable => exact .refl h

end Client

/-- The process that the host's client holds, if there is a client and it has one. -/
def Host.child (h : Host) : Option Nat := h.client.bind (·.child)

namespace Host

open SchemaHighlighter.System (Leads)

variable {s : System} {refusal : Refusal} {h : Host} {os : String}

theorem leads_drop (known : s.Accounts h.child) : Leads s (h.drop s) none := by
  obtain ⟨settings, selector, _ | c⟩ := h
  · exact .refl known
  · exact Client.leads_stop known

theorem leads_deactivate (known : s.Accounts h.child) :
    Leads s (h.deactivate s).system none := by
  obtain ⟨settings, selector, _ | c⟩ := h
  · exact .refl known
  · exact Client.leads_stop known

theorem client_deactivate (h : Host) (s : System) : (h.deactivate s).host.client = none := by
  obtain ⟨settings, selector, _ | c⟩ := h <;> rfl

/-- Whether or not its server starts, the client of the new settings is there. -/
theorem ofHosting_activate (os : String) (refusal : Refusal) (settings : Settings) (h : Host)
    (s : System) :
    Session.ofHosting (h.activate os refusal settings s) =
      let stopped := h.deactivate s
      let started := Client.start refusal { executable := settings.executable os } stopped.system
      ⟨{ stopped.host with settings, client := some started.2.1 }, started.2.2⟩ := by
  rw [activate]
  dsimp only
  split
  case h_1 run => rw [run]; rfl
  case h_2 run => rw [run]; rfl

theorem ofHosting_restart (refusal : Refusal) (settings : Settings) (selector : DocumentSelector)
    (c : Client) (s : System) :
    Session.ofHosting (restart refusal ⟨settings, selector, some c⟩ s) =
      ⟨⟨settings, selector, some (c.restart refusal s).2.1⟩, (c.restart refusal s).2.2⟩ := by
  rw [restart]
  dsimp only
  split
  case h_1 run => rw [run]; rfl
  case h_2 run => rw [run]; rfl

theorem child_configurationChanged (os : String) (settings : Settings) (h : Host) :
    (h.configurationChanged os settings).child = h.child := by
  obtain ⟨_, selector, _ | c⟩ := h <;> rfl

end Host

namespace Session

open SchemaHighlighter.System (Leads)

def child (s : Session) : Option Nat := s.host.child

/-- Every process that was started is the client's or has been waited for. -/
def Accounts (s : Session) : Prop := s.system.Accounts s.child

variable {s : Session} {refusal : Refusal} {os : String}

theorem leads_activate (os : String) (refusal : Refusal) (h : s.Accounts) (settings : Settings) :
    Leads s.system (s.step os refusal (.activate settings)).system
      (s.step os refusal (.activate settings)).child := by
  have stopped := Host.leads_deactivate h
  rw [step, Host.ofHosting_activate]
  exact stopped.trans
    (Client.leads_start (c := { executable := settings.executable os }) refusal stopped.accounts)

theorem leads_restart (os : String) (refusal : Refusal) (h : s.Accounts) :
    Leads s.system (s.step os refusal .restart).system (s.step os refusal .restart).child := by
  obtain ⟨⟨settings, selector, _ | c⟩, system⟩ := s
  · exact .refl h
  · rw [step, Host.ofHosting_restart]
    exact Client.leads_restart (c := c) refusal h

/-- The host's own command is a restart, and any other comes to nothing. -/
theorem step_command (os : String) (refusal : Refusal) (s : Session) (name : String) :
    s.step os refusal (.command name) =
      if name = restartCommand then s.step os refusal .restart else s := by
  rw [step, Host.executeCommand]
  split <;> rfl

theorem leads_step (os : String) (refusal : Refusal) (h : s.Accounts) {event : SessionEvent}
    (other : event ≠ .client .takePipes) :
    Leads s.system (s.step os refusal event).system (s.step os refusal event).child := by
  cases event with
  | activate settings => exact leads_activate os refusal h settings
  | configurationChanged settings =>
    rw [child, step, Host.child_configurationChanged]
    exact .refl h
  | command name =>
    rw [step_command]
    split
    · exact leads_restart os refusal h
    · exact .refl h
  | restart => exact leads_restart os refusal h
  | deactivate =>
    have stopped := Host.leads_deactivate h
    rwa [child, step, ofHosting, Host.child, Host.client_deactivate]
  | drop => exact Host.leads_drop h
  | client event =>
    obtain ⟨⟨settings, selector, _ | c⟩, system⟩ := s
    · exact .refl h
    · exact Client.leads_step h (mt (congrArg SessionEvent.client) other)
  | exit id => exact ⟨System.grows_exit _ id, System.Accounts.exit h id⟩

/-- Whose pipes an event hands out. -/
def handsOut (s : Session) : SessionEvent → List Nat
  | .client .takePipes =>
    match s.child with
    | none => []
    | some id => if (s.system.takePipes id).1 = true then [id] else []
  | _ => []

/-- Whose pipes are handed out, one after another, in a session that goes on with some events. -/
def handouts (os : String) (refusal : Refusal) : Session → List SessionEvent → List Nat
  | _, [] => []
  | s, event :: events => s.handsOut event ++ handouts os refusal (s.step os refusal event) events

/-- Every process is accounted for, and so are its pipes. -/
structure Sound (s : Session) (given : List Nat) : Prop where
  accounts : s.Accounts
  handed : s.system.Handed given

theorem sound_start : Sound {} [] := ⟨⟨nofun, nofun⟩, nofun, .nil, nofun⟩

theorem Sound.step {given : List Nat} (h : s.Sound given) (event : SessionEvent) :
    (s.step os refusal event).Sound (given ++ s.handsOut event) := by
  -- all other events leave the pipes where they are
  by_cases taking : event = .client .takePipes
  · subst taking
    obtain ⟨⟨settings, selector, _ | ⟨executable, _ | id⟩⟩, system⟩ := s
    · exact ⟨h.accounts, (List.append_nil given).symm ▸ h.handed⟩
    · exact ⟨h.accounts, (List.append_nil given).symm ▸ h.handed⟩
    · exact ⟨h.accounts.takePipes id, h.handed.takePipes id⟩
  · have leads := leads_step os refusal h.accounts taking
    have nothing : s.handsOut event = [] := by
      rw [handsOut]
      exact fun same => taking same
    rw [nothing, List.append_nil]
    exact ⟨leads.accounts, h.handed.grows leads.grows⟩

theorem Sound.foldl {given : List Nat} (h : s.Sound given) (events : List SessionEvent) :
    (events.foldl (Session.step os refusal) s).Sound (given ++ handouts os refusal s events) := by
  induction events generalizing s given with
  | nil =>
    rw [handouts, List.append_nil]
    exact h
  | cons event events ih =>
    rw [handouts, ← List.append_assoc, List.foldl_cons]
    exact ih (h.step event)

/-- A session is sound after whatever has happened in it. -/
theorem sound_run (os : String) (refusal : Refusal) (events : List SessionEvent) :
    (run os refusal events).Sound (handouts os refusal {} events) :=
  sound_start.foldl events

theorem child_of_stopped {event : SessionEvent}
    (stopping : event ∈ [.client .stop, .deactivate, .drop]) :
    (s.step os refusal event).child = none := by
  simp only [List.mem_cons, List.not_mem_nil, or_false] at stopping
  rcases stopping with rfl | rfl | rfl
  · obtain ⟨⟨settings, selector, _ | c⟩, system⟩ := s
    · rfl
    · exact Client.child_stop c system
  · rw [child, step, ofHosting, Host.child, Host.client_deactivate, Option.bind_none]
  · rfl

theorem start_of_running {id : Nat} (held : s.child = some id)
    (running : s.system.state? id = some .running) : s.step os refusal (.client .start) = s := by
  obtain ⟨⟨settings, selector, _ | c⟩, system⟩ := s
  · cases held
  · rw [step]
    dsimp only
    rw [Client.step, Client.start_of_running held running]

theorem child_of_restarted {id : Nat} {event : SessionEvent} (h : s.Accounts)
    (held : s.child = some id)
    (restarting : event ∈ [.client .restart, .restart, .command restartCommand]) :
    (s.step os refusal event).child ≠ some id := by
  obtain ⟨⟨settings, selector, _ | c⟩, system⟩ := s
  · cases held
  · have other := Client.child_restart_ne (c := c) refusal h held
    simp only [List.mem_cons, List.not_mem_nil, or_false] at restarting
    rcases restarting with rfl | rfl | rfl
    · exact other
    · rw [step, Host.ofHosting_restart]
      exact other
    · rw [step_command, if_pos rfl, step, Host.ofHosting_restart]
      exact other

/-- How a session stands to the processes that it has started, once the pipes of some have been
handed out. -/
structure Accounted (os : String) (refusal : Refusal) (s : Session) (given : List Nat) : Prop where
  /-- The client's process is the one that has not been waited for. -/
  child_iff : ∀ id, s.child = some id ↔
    ∃ p, s.system.processes[id]? = some p ∧ p.state ≠ .reaped
  /-- Of any two processes one has been waited for. -/
  pairwise : s.system.processes.Pairwise fun p q => p.state = .reaped ∨ q.state = .reaped
  none_left : s.host.client = none → ∀ p ∈ s.system.processes, p.state = .reaped
  none_left_after : ∀ event ∈ [.client .stop, .deactivate, .drop],
    ∀ p ∈ (s.step os refusal event).system.processes, p.state = .reaped
  /-- A start of what runs already does nothing. -/
  start_running : ∀ id, s.child = some id → s.system.state? id = some .running →
    s.step os refusal (.client .start) = s
  /-- No kind of restart keeps the process. -/
  restart_ne : ∀ event ∈ [.client .restart, .restart, .command restartCommand],
    ∀ id, s.child = some id → (s.step os refusal event).child ≠ some id
  once : given.Nodup
  /-- Both pipes of a process have been handed out, or neither has. -/
  both : ∀ id p, s.system.processes[id]? = some p →
    p.hasOutput = p.hasInput ∧ (p.hasInput = false ↔ id ∈ given)
  /-- Who gets no pipes takes none away. -/
  refused : ∀ id, (s.system.takePipes id).1 = false → (s.system.takePipes id).2 = s.system

/-- Whatever happens in a session, no process is lost, none is doubled, and no pipe is lost or
handed out twice. -/
theorem processes_accounted (os : String) (refusal : Refusal) (events : List SessionEvent) :
    (run os refusal events).Accounted os refusal (handouts os refusal {} events) := by
  have sound := sound_run os refusal events
  generalize run os refusal events = s at sound
  have accounts : s.system.Accounts s.child := sound.accounts
  constructor
  case child_iff => exact accounts.child_iff
  case pairwise => exact accounts.pairwise
  case none_left =>
    intro absent
    rw [child, Host.child, absent] at accounts
    exact accounts.reaped_of_none
  case none_left_after =>
    intro event stopping
    have other : event ≠ .client .takePipes := by
      rintro rfl
      simp at stopping
    have after := (leads_step os refusal sound.accounts other).accounts
    rw [child_of_stopped stopping] at after
    exact after.reaped_of_none
  case start_running => exact fun id => start_of_running
  case restart_ne =>
    intro event restarting id held
    exact child_of_restarted sound.accounts held restarting
  case once => exact sound.handed.once
  case both => exact fun id p found => (sound.handed.pipes id p found).symm
  case refused => exact fun id => sound.handed.takePipes_snd

/-- One server ends by itself, one is replaced, one start fails, and a last server runs. -/
theorem processes_accounted_of_failed_start :
    let os := "linux"
    let refusal : Refusal := fun tried _ => if tried = 2 then some "no such file" else none
    let events : List SessionEvent :=
      [.activate {}, .client .takePipes, .client .takePipes, .exit 0, .client .start,
        .restart, .client .takePipes, .client .start, .client .takePipes, .client .start]
    (run os refusal events).system.processes.map (·.state) = [.reaped, .reaped, .running] ∧
      (run os refusal events).Accounted os refusal [0, 2] := by
  intro os refusal events
  have given : handouts os refusal {} events = [0, 2] := by decide
  refine ⟨by decide, ?_⟩
  rw [← given]
  exact processes_accounted os refusal events

end Session

end SchemaHighlighter
