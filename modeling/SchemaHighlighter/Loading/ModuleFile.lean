import SchemaHighlighter.Files.Tree
import SchemaHighlighter.Loading.Handle

/-!
# Loading the engine from a file

The file must be there, readable, and a module of the right version, before its bytes are
handed on to be made into an engine. For a request that has been cancelled nothing is done, and
no more is done for one that is cancelled while the file is being read.
-/
namespace SchemaHighlighter

/-- The magic number and the version at the start of every module. -/
def moduleHeader : List UInt8 := [0x00, 0x61, 0x73, 0x6D, 0x01, 0x00, 0x00, 0x00]

/-- The files, and all that has been handed on, the latest first. -/
structure ModuleFiles where
  tree : FileTree := {}
  handedOn : List (List UInt8) := []
  /-- Whether requests are cancelled while the file is being read. -/
  interrupts : Bool := false
  deriving DecidableEq, Repr

def notModule (path : String) : EngineError := .invalidModule s!"{path} is not a wasm module"

def readModule (path : String) (t : FileTree) : Except EngineError (List UInt8) :=
  match Path.ofString path >>= t.find with
  | .error _ => .error (.moduleNotFound path)
  | .ok .directory => .error (.io path SystemError.isDirectory.message)
  | .ok (.program _) => .error (notModule path)
  | .ok (.file content) =>
    if moduleHeader.isPrefixOf content then .ok content else .error (notModule path)

/-- Loads the module at a path and makes it into an engine by `instantiate`. -/
def moduleLoader {σ : Type} (path : String)
    (instantiate : List UInt8 → Except EngineError (Machine σ)) : Loader ModuleFiles σ :=
  fun cancelled s =>
    if cancelled then (.error .cancelled, s)
    else match readModule path s.tree with
      | .error e => (.error e, s)
      | .ok content =>
        if s.interrupts then (.error .cancelled, s)
        else (instantiate content, { s with handedOn := content :: s.handedOn })

/-- Where the module is looked for when no path is given and none lies beside the program. -/
def defaultModulePath : String := engineModuleFile

end SchemaHighlighter
