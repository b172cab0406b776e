import SchemaHighlighter.Server.Host

/-!
# Sessions of a server host

All that can happen between an editor, a host, its client and the processes that it started,
one event after another. A process may end by itself at any time.
-/
namespace SchemaHighlighter

inductive ClientEvent where
  | start
  | stop
  | restart
  | askRunning
  | askPid
  | takePipes
  | setExecutable (executable : Executable)
  deriving DecidableEq, Repr

inductive SessionEvent where
  | activate (settings : Settings)
  | configurationChanged (settings : Settings)
  | command (name : String)
  | restart
  | deactivate
  /-- The end of the host. A new one takes its place. -/
  | drop
  /-- Something done to the client directly, if there is one. -/
  | client (event : ClientEvent)
  /-- The end of a process by itself. -/
  | exit (id : Nat)
  deriving DecidableEq, Repr

structure Session where
  host : Host := {}
  system : System := {}
  deriving DecidableEq, Repr

def Client.step (refusal : Refusal) (c : Client) (s : System) : ClientEvent → Client × System
  | .start => (c.start refusal s).2
  | .stop => c.stop s
  | .restart => (c.restart refusal s).2
  | .askRunning => (c.isRunning s).2
  | .askPid => (c.pid s).2
  | .takePipes => (c, (c.takePipes s).2)
  | .setExecutable executable => ({ c with executable }, s)

namespace Session

def ofHosting (h : Hosting) : Session := ⟨h.host, h.system⟩

def step (os : String) (refusal : Refusal) (s : Session) : SessionEvent → Session
  | .activate settings => ofHosting (s.host.activate os refusal settings s.system)
  | .configurationChanged settings => { s with host := s.host.configurationChanged os settings }
  | .command name => ofHosting (s.host.executeCommand refusal name s.system).2
  | .restart => ofHosting (s.host.restart refusal s.system)
  | .deactivate => ofHosting (s.host.deactivate s.system)
  | .drop => { host := {}, system := s.host.drop s.system }
  | .client event =>
    match s.host.client with
    | none => s
    | some c =>
      let (c, system) := c.step refusal s.system event
      { host := { s.host with client := some c }, system }
  | .exit id => { s with system := s.system.exit id }

/-- The session after a list of events. -/
def run (os : String) (refusal : Refusal) (events : List SessionEvent) : Session :=
  events.foldl (step os refusal) {}

end Session

end SchemaHighlighter
