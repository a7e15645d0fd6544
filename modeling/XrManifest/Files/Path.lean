/-!
# Paths

A path is a text in segments that slashes separate. The header of a manifest
goes next to it, under the name of the manifest with `h` as extension.
-/

namespace XrManifest.Files

def segments (path : List Char) : List (List Char) := path.splitOnP (· = '/')

/-- Whether a segment leads nowhere: it is empty or a single dot. -/
def isVoid (segment : List Char) : Bool := segment = [] || segment = ['.']

/-- A path cut at its last segment that leads somewhere: the text in front of
that name, the name, and whether anything stands behind it. -/
structure Cut where
  before : List Char
  name : List Char
  closed : Bool
deriving DecidableEq, Repr

/-- Cuts a path at its last name. A path that leads nowhere has none. -/
def cut? (path : List Char) : Option Cut :=
  match (segments path).reverse.dropWhile isVoid with
  | [] => none
  | name :: earlier =>
    some {
      before := earlier.reverse.flatMap fun segment => segment ++ ['/']
      name
      closed := earlier.length + 1 < (segments path).length }

/-- A file name without its extension, and the extension behind its last dot. A
name whose only dot comes first has no extension. -/
def splitExtension (name : List Char) : List Char × Option (List Char) :=
  match name.reverse.dropWhile (· ≠ '.') with
  | _ :: c :: rest => ((c :: rest).reverse, some (name.reverse.takeWhile (· ≠ '.')).reverse)
  | _ => (name, none)

/-- The path of the header of a manifest, when none is asked for. A path without
a name, or whose name is `..`, stays as it is. A last name of two dots and an
extension only loses the extension, since what is left names a directory. -/
def headerPath (path : String) : String :=
  match cut? path.toList with
  | none => path
  | some cut =>
    if cut.name = ['.', '.'] then path
    else
      let (stem, extension) := splitExtension cut.name
      if stem = ['.'] ∧ extension.isSome ∧ ¬ cut.closed then
        String.ofList (cut.before ++ ['.', '.'])
      else String.ofList (cut.before ++ stem ++ ['.', 'h'])

end XrManifest.Files
