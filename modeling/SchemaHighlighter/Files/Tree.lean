import SchemaHighlighter.Files.Path

/-!
# A tree of files

A path leads down name by name, and each place on its way must be a directory. The working
directory is one of the temporary ones, and its own name is not known. So no path leads down to it
from the root, but one that climbs from it comes to the root and stays there.
-/
namespace SchemaHighlighter

inductive FileNode where
  | file (content : List UInt8)
  /-- A file that can be run, known by the name of the program. -/
  | program (name : String)
  | directory
  deriving DecidableEq, Repr

inductive Anchor where
  | root
  | workingDirectory
  deriving DecidableEq, Repr

/-- Where something is: the names that lead down to it from an anchor. -/
structure Place where
  anchor : Anchor
  names : List String := []
  deriving DecidableEq, Repr

namespace Place

def child (p : Place) (name : String) : Place := { p with names := p.names ++ [name] }

def temporary : Place := ⟨.root, ["tmp"]⟩

/-- The directory above. The root is its own. -/
def parent (p : Place) : Place :=
  match p.names, p.anchor with
  | [], .root => p
  | [], .workingDirectory => temporary
  | _ :: _, _ => { p with names := p.names.dropLast }

def start (path : Path) : Place := ⟨if path.isAbsolute then .root else .workingDirectory, []⟩

end Place

structure FileTree where
  nodes : List (Place × FileNode) := []
  deriving DecidableEq, Repr

namespace FileTree

def node? (t : FileTree) (p : Place) : Option FileNode :=
  if p.names = [] then some .directory else t.nodes.lookup p

def requireDirectory (t : FileTree) (p : Place) : Except SystemError Unit :=
  match t.node? p with
  | some .directory => .ok ()
  | some _ => .error .notDirectory
  | none => .error .missing

/-- One name further, from a place that must be a directory. Nothing need be there. -/
def step (t : FileTree) (p : Place) (name : String) : Except SystemError Place := do
  t.requireDirectory p
  if name = "." then return p
  if name = ".." then return p.parent
  if Path.longestName < name.utf8ByteSize then throw .nameTooLong
  return p.child name

/-- The place to which a path leads, though nothing need be there. -/
def place (t : FileTree) (path : Path) : Except SystemError Place := do
  let p ← path.names.foldlM t.step (Place.start path)
  if path.endsInSlash then t.requireDirectory p
  return p

def find (t : FileTree) (path : Path) : Except SystemError FileNode := do
  match t.node? (← t.place path) with
  | some n => return n
  | none => throw .missing

end FileTree

end SchemaHighlighter
