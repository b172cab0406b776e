import SchemaHighlighter.Proofs.Server.Processes

/-! # Servers start with the latest settings

The settings are kept twice, by the host and as a command line by its client. As long as nobody
but the host changes the client, both are those that the host was given last, and every start is
tried with them. -/
namespace SchemaHighlighter

/-- Starts that were tried between two systems: none, or the one with a command line. All
processes keep theirs, and a new one comes from a start that was not refused. -/
structure System.Tries (refusal : Refusal) (s t : System) (tried : Option Executable) : Prop where
  attempts : t.attempts = s.attempts ++ tried.toList
  executables : t.processes.map (·.executable) = s.processes.map (·.executable) ++
    (tried.filter fun x => refusal s.attempts.length x = none).toList

namespace System

variable {refusal : Refusal} {s t u : System} {tried : Option Executable}

theorem Tries.refl (refusal : Refusal) (s : System) : Tries refusal s s none :=
  ⟨(List.append_nil _).symm, (List.append_nil _).symm⟩

theorem Tries.trans (first : Tries refusal s t none) (second : Tries refusal t u tried) :
    Tries refusal s u tried := by
  have attempts : t.attempts = s.attempts := first.attempts.trans (List.append_nil _)
  constructor
  · rw [second.attempts, attempts]
  · rw [second.executables, first.executables, attempts, Option.filter_none, Option.toList_none,
      List.append_nil]

theorem tries_update {f : Process → Process} (refusal : Refusal) (s : System) (id : Nat)
    (same : ∀ p, (f p).executable = p.executable) : Tries refusal s (s.update id f) none := by
  refine ⟨(List.append_nil _).symm, ?_⟩
  rw [Option.filter_none, Option.toList_none, List.append_nil]
  apply List.ext_getElem?
  intro i
  rw [List.getElem?_map, List.getElem?_map, getElem?_update]
  cases s.processes[i]? with
  | none => split <;> rfl
  | some p =>
    split
    · exact congrArg some (same p)
    · rfl

theorem tries_exit (refusal : Refusal) (s : System) (id : Nat) :
    Tries refusal s (s.exit id) none := by
  refine tries_update refusal s id fun p => ?_
  split <;> rfl

theorem tries_reap (refusal : Refusal) (s : System) (id : Nat) :
    Tries refusal s (s.reap id) none := by
  refine tries_update refusal s id fun p => ?_
  split <;> rfl

theorem tries_takePipes (refusal : Refusal) (s : System) (id : Nat) :
    Tries refusal s (s.takePipes id).2 none := by
  have input : Tries refusal s (s.takeInput id).2 none := tries_update refusal s id fun _ => rfl
  rw [takePipes]
  split
  case h_1 run =>
    rw [run] at input
    exact input.trans (tries_update refusal _ id fun _ => rfl)
  case h_2 run =>
    rw [run] at input
    exact input

theorem tries_spawn (refusal : Refusal) (x : Executable) (s : System) :
    Tries refusal s (s.spawn refusal x).2 (some x) := by
  rw [spawn]
  split
  case h_1 cause refused =>
    refine ⟨rfl, ?_⟩
    rw [Option.filter_some, refused, if_neg (by simp), Option.toList_none, List.append_nil]
  case h_2 granted =>
    refine ⟨rfl, ?_⟩
    rw [Option.filter_some, granted, if_pos (by simp), List.map_append]
    rfl

end System

namespace Client

variable {refusal : Refusal} {s : System} {c : Client}

theorem tries_isRunning (refusal : Refusal) (c : Client) (s : System) :
    s.Tries refusal (c.isRunning s).2.2 none := by
  rw [isRunning]
  split
  · exact .refl refusal s
  · split
    · exact .refl refusal s
    · exact s.tries_reap refusal _

theorem executable_isRunning (c : Client) (s : System) :
    (c.isRunning s).2.1.executable = c.executable := by
  rw [isRunning]
  split
  · rfl
  · split <;> rfl

theorem tries_stop (refusal : Refusal) (c : Client) (s : System) :
    s.Tries refusal (c.stop s).2 none := by
  rw [stop]
  split
  · exact .refl refusal s
  · exact (s.tries_exit refusal _).trans (System.tries_reap refusal _ _)

theorem executable_stop (c : Client) (s : System) :
    (c.stop s).1.executable = c.executable := by
  obtain ⟨executable, _ | id⟩ := c <;> rfl

/-- Without a server, a start is tried. -/
theorem tries_start (refusal : Refusal) (s : System) (absent : c.child = none) :
    s.Tries refusal (c.start refusal s).2.2 (some c.executable) := by
  obtain ⟨executable, child⟩ := c
  cases absent
  rw [start_of_gone rfl]
  exact s.tries_spawn refusal executable

theorem executable_start (refusal : Refusal) (c : Client) (s : System) :
    (c.start refusal s).2.1.executable = c.executable := by
  have same := executable_isRunning c s
  rw [start]
  split
  case h_1 run => rwa [run] at same
  case h_2 run =>
    rw [run] at same
    split <;> exact same

theorem tries_restart (refusal : Refusal) (c : Client) (s : System) :
    s.Tries refusal (c.restart refusal s).2.2 (some c.executable) := by
  rw [← executable_stop c s]
  exact (tries_stop refusal c s).trans (tries_start refusal _ (child_stop c s))

theorem executable_restart (refusal : Refusal) (c : Client) (s : System) :
    (c.restart refusal s).2.1.executable = c.executable :=
  (executable_start refusal _ _).trans (executable_stop c s)

theorem tries_takePipes (refusal : Refusal) (c : Client) (s : System) :
    s.Tries refusal (c.takePipes s).2 none := by
  rw [takePipes]
  split
  · exact .refl refusal s
  · exact s.tries_takePipes refusal _

end Client

namespace Host

theorem tries_deactivate (refusal : Refusal) (h : Host) (s : System) :
    s.Tries refusal (h.deactivate s).system none := by
  obtain ⟨settings, selector, _ | c⟩ := h
  · exact .refl refusal s
  · exact c.tries_stop refusal s

theorem settings_deactivate (h : Host) (s : System) :
    (h.deactivate s).host.settings = h.settings := by
  obtain ⟨settings, selector, _ | c⟩ := h <;> rfl

end Host

namespace SessionEvent

/-- Whether an event leaves the client to its host. A client may always be asked. -/
def leavesClient : SessionEvent → Bool
  | .drop | .client .start | .client .stop | .client .restart | .client (.setExecutable _) => false
  | _ => true

/-- The settings that an event gives to the host. -/
def settings? : SessionEvent → Option Settings
  | .activate settings | .configurationChanged settings => some settings
  | _ => none

end SessionEvent

namespace Client

variable {event : ClientEvent}

/-- A question changes no command line. -/
theorem executable_step (refusal : Refusal) (c : Client) (s : System)
    (hosts : (SessionEvent.client event).leavesClient) :
    (c.step refusal s event).1.executable = c.executable := by
  cases event with
  | askRunning => exact c.executable_isRunning s
  | askPid =>
    rw [step, pid_snd]
    exact c.executable_isRunning s
  | takePipes => rfl
  | start | stop | restart | setExecutable => cases hosts

theorem tries_step (refusal : Refusal) (c : Client) (s : System)
    (hosts : (SessionEvent.client event).leavesClient) :
    s.Tries refusal (c.step refusal s event).2 none := by
  cases event with
  | askRunning => exact c.tries_isRunning refusal s
  | askPid =>
    rw [step, pid_snd]
    exact c.tries_isRunning refusal s
  | takePipes => exact c.tries_takePipes refusal s
  | start | stop | restart | setExecutable => cases hosts

end Client

namespace Session

variable {os : String} {refusal : Refusal} {s : Session} {past : List SessionEvent}
  {event : SessionEvent}

/-- The settings that the host was given last. -/
def latest (events : List SessionEvent) : Settings :=
  (events.filterMap (·.settings?)).getLast?.getD {}

/-- There was an activation, and no deactivation after it. -/
def Active (events : List SessionEvent) : Prop :=
  ∃ before settings after, events = before ++ .activate settings :: after ∧ .deactivate ∉ after

/-- Whether an event tries to start a server: an activation does, and any restart of a client. -/
def tries (s : Session) : SessionEvent → Bool
  | .activate _ => true
  | .restart => s.host.client.isSome
  | .command name => s.host.client.isSome && name == restartCommand
  | _ => false

theorem latest_concat (past : List SessionEvent) (event : SessionEvent) :
    latest (past ++ [event]) = event.settings?.getD (latest past) := by
  rw [latest, latest, List.filterMap_append]
  cases given : event.settings? with
  | none =>
    rw [List.filterMap_cons_none given, List.filterMap_nil, List.append_nil, Option.getD_none]
  | some settings =>
    rw [List.filterMap_cons_some given, List.filterMap_nil, List.getLast?_concat]
    rfl

theorem active_concat (past : List SessionEvent) (event : SessionEvent) :
    Active (past ++ [event]) ↔
      (∃ settings, event = .activate settings) ∨ event ≠ .deactivate ∧ Active past := by
  constructor
  · rintro ⟨before, settings, after, split, still⟩
    rcases List.eq_nil_or_concat after with rfl | ⟨after, last, rfl⟩
    · obtain ⟨-, same⟩ := List.append_inj' split rfl
      exact .inl ⟨settings, (List.cons.inj same).1⟩
    -- the last event comes after the activation, so it is no deactivation
    · rw [List.concat_eq_append] at split still
      rw [← List.cons_append, ← List.append_assoc] at split
      obtain ⟨rfl, same⟩ := List.append_inj' split rfl
      obtain ⟨rfl, -⟩ := List.cons.inj same
      refine .inr ⟨fun last => still ?_, before, settings, after, rfl, fun mem => still ?_⟩
      · exact List.mem_append_right _ (List.mem_singleton.2 last.symm)
      · exact List.mem_append_left _ mem
  · rintro (⟨settings, rfl⟩ | ⟨other, before, settings, after, rfl, still⟩)
    · exact ⟨past, settings, [], rfl, nofun⟩
    · refine ⟨before, settings, after ++ [event], by rw [List.append_assoc, List.cons_append], ?_⟩
      intro mem
      rcases List.mem_append.1 mem with early | last
      · exact still early
      · exact other (List.mem_singleton.1 last).symm

/-- The host and its client have the settings that were given last, and there is a client
while the host is active. -/
structure Current (os : String) (past : List SessionEvent) (s : Session) : Prop where
  settings : s.host.settings = latest past
  executable : ∀ c, s.host.client = some c → c.executable = s.host.settings.executable os
  active : s.host.client.isSome ↔ Active past

theorem current_start (os : String) : Current os [] {} := by
  refine ⟨rfl, nofun, iff_of_false nofun ?_⟩
  rintro ⟨before, settings, after, split, -⟩
  exact List.append_ne_nil_of_right_ne_nil before (List.cons_ne_nil _ _) split.symm

/-- What gives no settings, and neither makes nor drops a client, leaves everything current. -/
theorem Current.of_same {t : Session} (h : s.Current os past) (settings : event.settings? = none)
    (goes : event ≠ .deactivate) (same : t.host.settings = s.host.settings)
    (client : t.host.client.map (·.executable) = s.host.client.map (·.executable)) :
    t.Current os (past ++ [event]) := by
  constructor
  · rw [latest_concat, settings, same, h.settings, Option.getD_none]
  · intro c found
    rw [found, Option.map_some] at client
    obtain ⟨c', known, executable⟩ := Option.map_eq_some_iff.1 client.symm
    rw [same, ← executable]
    exact h.executable c' known
  · have present := congrArg Option.isSome client
    rw [Option.isSome_map, Option.isSome_map] at present
    rw [active_concat, ← h.active, present]
    refine ⟨fun some => .inr ⟨goes, some⟩, ?_⟩
    rintro (⟨given, rfl⟩ | ⟨-, some⟩)
    · cases settings
    · exact some

theorem Current.restart (h : s.Current os past) (settings : event.settings? = none)
    (goes : event ≠ .deactivate) : (s.step os refusal .restart).Current os (past ++ [event]) := by
  obtain ⟨⟨given, selector, _ | c⟩, system⟩ := s
  · exact h.of_same settings goes rfl rfl
  · rw [Session.step, Host.ofHosting_restart]
    exact h.of_same settings goes rfl (congrArg some (c.executable_restart refusal system))

theorem Current.step (h : s.Current os past) (hosts : event.leavesClient) :
    (s.step os refusal event).Current os (past ++ [event]) := by
  cases event with
  | activate settings =>
    rw [Session.step, Host.ofHosting_activate]
    refine ⟨?_, ?_, ?_⟩
    · rw [latest_concat]
      rfl
    · rintro _ ⟨⟩
      exact Client.executable_start ..
    · rw [active_concat]
      exact iff_of_true rfl (.inl ⟨settings, rfl⟩)
  | configurationChanged settings =>
    refine ⟨?_, ?_, ?_⟩
    · rw [latest_concat]
      rfl
    · intro c found
      obtain ⟨c', -, rfl⟩ := Option.map_eq_some_iff.1 found
      rfl
    · rw [active_concat, ← h.active, Session.step, Host.configurationChanged, Option.isSome_map]
      constructor
      · exact fun some => .inr ⟨by rintro ⟨⟩, some⟩
      · rintro (⟨_, ⟨⟩⟩ | ⟨-, some⟩)
        exact some
  | command name =>
    rw [step_command]
    split
    · exact h.restart rfl (by rintro ⟨⟩)
    · exact h.of_same rfl (by rintro ⟨⟩) rfl rfl
  | restart => exact h.restart rfl (by rintro ⟨⟩)
  | deactivate =>
    have absent := s.host.client_deactivate s.system
    refine ⟨?_, ?_, ?_⟩
    · rw [latest_concat]
      exact (s.host.settings_deactivate s.system).trans h.settings
    · intro c found
      cases absent.symm.trans found
    · rw [active_concat, Session.step, ofHosting, absent]
      refine iff_of_false Bool.false_ne_true ?_
      rintro (⟨settings, ⟨⟩⟩ | ⟨other, -⟩)
      exact other rfl
  | drop => cases hosts
  | client event =>
    obtain ⟨⟨settings, selector, _ | c⟩, system⟩ := s
    · exact h.of_same rfl (by rintro ⟨⟩) rfl rfl
    · have same := c.executable_step refusal system hosts
      exact h.of_same rfl (by rintro ⟨⟩) rfl (congrArg some same)
  | exit id => exact h.of_same rfl (by rintro ⟨⟩) rfl rfl

theorem Current.foldl (h : s.Current os past) (events : List SessionEvent)
    (hosts : ∀ event ∈ events, event.leavesClient) :
    (events.foldl (Session.step os refusal) s).Current os (past ++ events) := by
  induction events generalizing s past with
  | nil => exact (List.append_nil past).symm ▸ h
  | cons event events ih =>
    rw [List.foldl_cons, List.append_cons]
    exact ih (h.step (hosts event List.mem_cons_self))
      fun later mem => hosts later (List.mem_cons_of_mem event mem)

theorem current_run (os : String) (refusal : Refusal) (events : List SessionEvent)
    (hosts : ∀ event ∈ events, event.leavesClient) : (run os refusal events).Current os events :=
  (current_start os).foldl events hosts

/-- A restart tries the settings that were given last, if there is a client. -/
theorem Current.tries_restart (h : s.Current os past) (refusal : Refusal) :
    s.system.Tries refusal (s.step os refusal .restart).system
      (if s.host.client.isSome then some ((latest past).executable os) else none) := by
  rw [← h.settings]
  obtain ⟨⟨given, selector, _ | c⟩, system⟩ := s
  · exact .refl refusal system
  · rw [Session.step, Host.ofHosting_restart, ← h.executable c rfl]
    exact c.tries_restart refusal system

/-- What an event tries to start has the settings that were given last. -/
theorem Current.tries_step (h : s.Current os past) (hosts : event.leavesClient) :
    s.system.Tries refusal (s.step os refusal event).system
      (if s.tries event then some ((latest (past ++ [event])).executable os) else none) := by
  rw [latest_concat]
  cases event with
  | activate settings =>
    rw [Session.step, Host.ofHosting_activate]
    have stopped := s.host.tries_deactivate refusal s.system
    exact stopped.trans (Client.tries_start refusal _ rfl)
  | configurationChanged settings => exact .refl refusal s.system
  | command name =>
    rw [step_command, Session.tries]
    by_cases ours : name = restartCommand
    · rw [if_pos ours, beq_iff_eq.2 ours, Bool.and_true]
      exact h.tries_restart refusal
    · rw [if_neg ours, beq_eq_false_iff_ne.2 ours, Bool.and_false]
      exact .refl refusal s.system
  | restart => exact h.tries_restart refusal
  | deactivate => exact s.host.tries_deactivate refusal s.system
  | drop => cases hosts
  | client event =>
    obtain ⟨⟨settings, selector, _ | c⟩, system⟩ := s
    · exact .refl refusal system
    · exact c.tries_step refusal system hosts
  | exit id => exact s.system.tries_exit refusal id

/-- As long as the host alone changes the client, its command line is that of the settings that
were given last, and so is that of every start that is tried. A restart is tried whenever there
is a client, and there is one while the host is active. New settings alone change no process. -/
theorem launched_with_latest (os : String) (refusal : Refusal) (past : List SessionEvent)
    (hosts : ∀ event ∈ past, event.leavesClient) :
    (run os refusal past).host.settings = latest past ∧
      (∀ c, (run os refusal past).host.client = some c →
        c.executable = (run os refusal past).host.settings.executable os) ∧
      ((run os refusal past).host.client.isSome ↔ Active past) ∧
      (∀ event : SessionEvent, event.leavesClient →
        (run os refusal past).system.Tries refusal (run os refusal (past ++ [event])).system
          (if (run os refusal past).tries event then some ((latest (past ++ [event])).executable os)
            else none)) ∧
      ∀ settings, (run os refusal (past ++ [.configurationChanged settings])).system =
          (run os refusal past).system ∧
        (run os refusal (past ++ [.configurationChanged settings])).child =
          (run os refusal past).child := by
  have current := current_run os refusal past hosts
  have next (event : SessionEvent) :
      run os refusal (past ++ [event]) = (run os refusal past).step os refusal event :=
    List.foldl_append
  refine ⟨current.settings, current.executable, current.active, ?_, ?_⟩
  · intro event hosts
    rw [next]
    exact current.tries_step hosts
  · intro settings
    rw [next]
    exact ⟨rfl, Host.child_configurationChanged os settings _⟩

/-- A start fails, new settings come, and the next restart is tried with the entry that they have
for the system's platform. -/
theorem launched_with_latest_of_failed_start :
    let os := "macos"
    let refusal : Refusal := fun _ x => if x.command = "missing" then some "not found" else none
    let past : List SessionEvent :=
      [.activate { default := { command := some "missing" } },
        .configurationChanged {
          default := { command := some "other", args := some ["--stdio"] }
          platforms := [("darwin", { command := some "server" })] }]
    (∀ event ∈ past, event.leavesClient) ∧
      (run os refusal past).system.attempts = [⟨"missing", []⟩] ∧
      (run os refusal (past ++ [.restart])).system.attempts =
        [⟨"missing", []⟩, ⟨"server", ["--stdio"]⟩] ∧
      (run os refusal (past ++ [.restart])).system.processes.map (·.executable) =
        [⟨"server", ["--stdio"]⟩] := by
  intro os refusal past
  have hosts : ∀ event ∈ past, event.leavesClient := by decide
  obtain ⟨-, -, -, tries, -⟩ := launched_with_latest os refusal past hosts
  obtain ⟨attempts, executables⟩ := tries .restart rfl
  refine ⟨hosts, by decide, attempts.trans (by decide), executables.trans (by decide)⟩

end Session

end SchemaHighlighter
