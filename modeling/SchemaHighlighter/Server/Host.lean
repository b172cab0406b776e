import SchemaHighlighter.Server.Client
import SchemaHighlighter.Server.Selector

/-!
# The server host

The face that an editor sees: it is activated with settings, told of new ones, given commands
and deactivated. What goes wrong is logged, and no request fails. New settings count from the
next start on. Which entry of the settings counts is for the operating system to say.
-/
namespace SchemaHighlighter

structure Host where
  settings : Settings := {}
  selector : DocumentSelector := {}
  client : Option Client := none
  deriving DecidableEq, Repr

/-- A host with the system that it works on, and what it logged. -/
structure Hosting where
  host : Host
  system : System
  log : List LogEvent := []
  deriving DecidableEq, Repr

namespace Host

/-- Stops the server and drops the client. -/
def deactivate (h : Host) (s : System) : Hosting :=
  match h.client with
  | none => { host := h, system := s }
  | some c => { host := { h with client := none }, system := (c.stop s).2 }

/-- The end of the host itself. A client that it still has stops its server. -/
def drop (h : Host) (s : System) : System :=
  match h.client with
  | none => s
  | some c => (c.stop s).2

/-- Starts a server by new settings, in place of any that there was. The client stays even if
the start fails. -/
def activate (os : String) (refusal : Refusal) (settings : Settings) (h : Host) (s : System) :
    Hosting :=
  let after := h.deactivate s
  let client : Client := { executable := settings.executable os }
  match client.start refusal after.system with
  | (.ok (), c, s) =>
    { host := { after.host with settings, client := some c }, system := s }
  | (.error e, c, s) =>
    { host := { after.host with settings, client := some c }, system := s, log := [.startFailed e] }

/-- Takes note of new settings. -/
def configurationChanged (os : String) (settings : Settings) (h : Host) : Host :=
  { h with
    settings
    client := h.client.map fun c => { c with executable := settings.executable os } }

def restart (refusal : Refusal) (h : Host) (s : System) : Hosting :=
  match h.client with
  | none => { host := h, system := s }
  | some c =>
    match c.restart refusal s with
    | (.ok (), c, s) => { host := { h with client := some c }, system := s }
    | (.error e, c, s) =>
      { host := { h with client := some c }, system := s, log := [.restartFailed e] }

/-- Carries out a command of the editor, if it is one of the host's. -/
def executeCommand (refusal : Refusal) (command : String) (h : Host) (s : System) :
    Bool × Hosting :=
  if command = restartCommand then (true, h.restart refusal s)
  else (false, { host := h, system := s })

end Host

end SchemaHighlighter
