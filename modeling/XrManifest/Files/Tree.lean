import XrManifest.Files.Path
import XrManifest.Text.Position

/-!
# Trees of files

The files and directories that paths lead to. Reading and writing a file either
succeed or fail with a cause, and a write that fails changes nothing.
-/

namespace XrManifest.Files

/-- Why a file cannot be read or written. -/
inductive FileError where
  | noEntry
  | notDirectory
  | isDirectory
  | nameTooLong
  | nulInPath
  | notText
  | other (code : Nat) (text : String)
deriving DecidableEq, Repr

/-- The wording of a failure that has a number. -/
def numbered (code : Nat) (text : String) : String := s!"{text} (os error {code})"

def FileError.message : FileError → String
  | noEntry => numbered 2 "No such file or directory"
  | notDirectory => numbered 20 "Not a directory"
  | isDirectory => numbered 21 "Is a directory"
  | nameTooLong => numbered 36 "File name too long"
  | nulInPath => "file name contained an unexpected NUL byte"
  | notText => "stream did not contain valid UTF-8"
  | other code text => numbered code text

/-- Where a file or directory is: the names that lead to it from the root. -/
abbrev Place := List String

/-- What can be at a place. -/
inductive Entry where
  | file (content : ByteArray)
  | directory

/-- Files, directories, and the directory at which relative paths start. The root
is always a directory. -/
structure FileTree where
  files : List (Place × ByteArray)
  directories : List Place
  current : Place

def maxName : Nat := 255

def maxPath : Nat := 4095

namespace FileTree

/-- A tree with nothing but an empty directory at `current`. -/
def empty (current : Place) : FileTree where
  files := []
  directories := (List.range (current.length + 1)).map current.take
  current := current

def entry? (tree : FileTree) (place : Place) : Option Entry :=
  match tree.files.lookup place with
  | some content => some (.file content)
  | none => if place = [] ∨ place ∈ tree.directories then some .directory else none

/-! ## Following paths -/

/-- Follows one segment from a place, which has to be a directory. -/
def follow (tree : FileTree) (place : Place) (segment : List Char) : Except FileError Place :=
  match tree.entry? place with
  | none => .error .noEntry
  | some (.file _) => .error .notDirectory
  | some .directory =>
    if isVoid segment then .ok place
    else if segment = ['.', '.'] then .ok place.dropLast
    else if maxName < Text.byteSize segment then .error .nameTooLong
    else .ok (place ++ [String.ofList segment])

/-- The place at which a path starts. -/
def startOf (tree : FileTree) : (path : List Char) → Place
  | '/' :: _ => []
  | _ => tree.current

/-- The segments of a path that can be followed at all. -/
def checkedSegments (path : List Char) : Except FileError (List (List Char)) :=
  if path.contains '\x00' then .error .nulInPath
  else if path = [] then .error .noEntry
  else if maxPath < Text.byteSize path then .error .nameTooLong
  else .ok (segments path)

def readBytes (tree : FileTree) (path : String) : Except FileError ByteArray := do
  let segments ← checkedSegments path.toList
  let place ← segments.foldlM tree.follow (tree.startOf path.toList)
  match tree.entry? place with
  | some (.file content) => return content
  | some .directory => throw .isDirectory
  | none => throw .noEntry

def readText (tree : FileTree) (path : String) : Except FileError String := do
  match String.fromUTF8? (← tree.readBytes path) with
  | some text => return text
  | none => throw .notText

/-- Puts a file at a place, in front of which there may be one already. -/
def store (tree : FileTree) (place : Place) (content : ByteArray) : FileTree :=
  { tree with files := (place, content) :: tree.files.filter fun file => file.1 ≠ place }

/-- The segments to follow when a file is written. In a path that ends in a slash
the last name could only be a directory, so it is not looked at: the directory
around it stands in for it. -/
def segmentsToWrite (segments : List (List Char)) : List (List Char) :=
  match segments.reverse.dropWhile (· = []) with
  | [] => []
  | name :: parents =>
    let closed := parents.length + 1 < segments.length
    ((if closed ∧ name ≠ ['.', '.'] then ['.'] else name) :: parents).reverse

/-- The place where a file at a path is or can be. -/
def placeToWrite (tree : FileTree) (path : String) : Except FileError Place := do
  let segments ← checkedSegments path.toList
  let place ← (segmentsToWrite segments).foldlM tree.follow (tree.startOf path.toList)
  match tree.entry? place with
  | some .directory => throw .isDirectory
  | _ => return place

/-- Writes a file, in place of the one that is at the path. -/
def write (tree : FileTree) (path : String) (content : ByteArray) : Except FileError FileTree := do
  return tree.store (← tree.placeToWrite path) content

/-! ## Setting up and looking at a tree -/

/-- Makes a directory and those that lead to it, where nothing is there yet. -/
def makeDirectory (tree : FileTree) (path : String) : FileTree :=
  let step := fun ((tree, place) : FileTree × Place) (segment : List Char) =>
    if isVoid segment then (tree, place)
    else if segment = ['.', '.'] then (tree, place.dropLast)
    else
      let next := place ++ [String.ofList segment]
      match tree.entry? next with
      | some _ => (tree, next)
      | none => ({ tree with directories := next :: tree.directories }, next)
  ((segments path.toList).foldl step (tree, tree.startOf path.toList)).1

/-- The directory that the file at a path is in. -/
def directoryOf (path : String) : String :=
  match cut? path.toList with
  | some cut => String.ofList cut.before
  | none => ""

/-- The files below the current directory, by their paths from there, in the
order of the bytes of the paths. -/
def listing (tree : FileTree) : List (String × ByteArray) :=
  let below := tree.files.filterMap fun (place, content) =>
    if tree.current.isPrefixOf place then
      some ("/".intercalate (place.drop tree.current.length), content)
    else none
  below.mergeSort fun a b => a.1 ≤ b.1

end FileTree
end XrManifest.Files
