import SchemaHighlighter.Language

/-!
# Settings of the language server

The settings say how the server is started: by default, and on a platform of a given name. A
command and its arguments are looked for separately, each in the platform's own entry first,
then in the default entry. An empty command does not count.
-/
namespace SchemaHighlighter

structure Executable where
  command : String := defaultServerCommand
  args : List String := []
  deriving DecidableEq, Repr, Inhabited

/-- An entry of the settings. What it leaves out is looked for elsewhere. -/
structure ExecutableEntry where
  command : Option String := none
  args : Option (List String) := none
  deriving DecidableEq, Repr, Inhabited

structure Settings where
  default : ExecutableEntry := {}
  /-- The entries of platforms, one for each name. -/
  platforms : List (String × ExecutableEntry) := []
  deriving DecidableEq, Repr, Inhabited

/-- The name by which editors know the platform of an operating system. -/
def hostPlatform : String → String
  | "macos" => "darwin"
  | "windows" => "win32"
  | os => os

namespace Settings

/-- Puts a platform's entry in the place of any that it had. -/
def put (s : Settings) (name : String) (entry : ExecutableEntry) : Settings :=
  { s with platforms := (s.platforms.filter (·.1 ≠ name)) ++ [(name, entry)] }

/-- The entries to look at for a platform, the first in charge. -/
def levels (s : Settings) (platform : String) : List ExecutableEntry :=
  (s.platforms.lookup platform).toList ++ [s.default]

def executableFor (s : Settings) (platform : String) : Executable where
  command :=
    ((s.levels platform).findSome? fun e => e.command.filter (· ≠ "")).getD defaultServerCommand
  args := ((s.levels platform).findSome? (·.args)).getD []

def executable (os : String) (s : Settings) : Executable := s.executableFor (hostPlatform os)

end Settings

end SchemaHighlighter
