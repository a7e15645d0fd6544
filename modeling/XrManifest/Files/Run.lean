import XrManifest.Files.Tree
import XrManifest.Header.Generation

/-!
# From manifest files to header files

A run reads a manifest, generates its header and writes it. Nothing is written
before the header is there. The steps are the same for the files of the system and
for a tree of files.
-/

namespace XrManifest.Files

open XrManifest.Naming

/-- Why a run failed. -/
inductive RunError where
  | generate (error : GenerateError)
  | read (path : String) (cause : FileError)
  | write (path : String) (cause : FileError)
deriving DecidableEq, Repr

namespace RunError

/-- The wording of a failure, without its cause. -/
def message : RunError → String
  | generate error => error.message
  | read path _ => "Failed to read `" ++ path ++ "`"
  | write path _ => "Failed to write `" ++ path ++ "`"

/-- The wording of a failure and of its cause. -/
def chain : RunError → List String
  | generate error => [error.message]
  | read path cause => [(read path cause).message, cause.message]
  | write path cause => [(write path cause).message, cause.message]

end RunError

/-! ## Steps of a run -/

/-- How a run reaches files. Reading and writing can fail. -/
structure FileAccess (m : Type → Type) where
  read : (path : String) → ExceptT FileError m String
  write : (path text : String) → ExceptT FileError m Unit

namespace FileAccess

variable {m : Type → Type} [Monad m] (files : FileAccess m)

/-- The header of the manifest at a path. -/
def readHeader (style : Style) (path : String) : ExceptT RunError m String := do
  let text ← (files.read path).adapt (RunError.read path)
  liftM ((XrManifest.generate style text).mapError RunError.generate)

/-- Writes the header of the manifest at `input` to `output`. -/
def generateFile (style : Style) (input output : String) : ExceptT RunError m Unit := do
  let header ← files.readHeader style input
  (files.write output header).adapt (RunError.write output)

end FileAccess

/-! ## Runs on a tree of files -/

/-- The files of a tree. A write that fails leaves the tree as it was. -/
def FileTree.access : FileAccess (StateM FileTree) where
  read path := ExceptT.mk fun tree => (tree.readText path, tree)
  write path text := ExceptT.mk fun tree =>
    match tree.write path text.toUTF8 with
    | .ok after => (.ok (), after)
    | .error cause => (.error cause, tree)

/-- The header of the manifest at a path of a tree. -/
def readHeader (tree : FileTree) (style : Style) (path : String) : Except RunError String :=
  ((FileTree.access.readHeader style path).run tree).1

/-- The tree in which the header of the manifest at `input` has been written to `output`. -/
def generateFile (tree : FileTree) (style : Style) (input output : String) :
    Except RunError FileTree :=
  let (outcome, after) := (FileTree.access.generateFile style input output).run tree
  outcome.map fun _ => after

end XrManifest.Files
