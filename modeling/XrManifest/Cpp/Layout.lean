import XrManifest.Text.Blank

/-!
# Layouts of C++ text

A layout is built from lines by putting one after the other and by moving one a
level to the right. Written out, a level is four spaces, a line loses the white
space at its end, and a line of nothing but white space is empty, whatever its
level.
-/

namespace XrManifest.Cpp

/-- The layout of a text in lines. -/
inductive Layout where
  | empty
  | line (text : String)
  | blank
  | append (above below : Layout)
  | indented (body : Layout)
deriving Inhabited, Repr

namespace Layout

instance : Append Layout := ⟨append⟩

def stack (layouts : List Layout) : Layout := layouts.foldr append empty

/-- An empty line, if `condition` holds. -/
def blankIf (condition : Bool) : Layout := if condition then blank else empty

/-- A header, and a body between braces that stand on lines of their own. -/
def braced (header close : String) (body : Layout) : Layout :=
  line header ++ line "\x7b" ++ indented body ++ line close

/-- A header with a body in braces. -/
def block (header : String) (body : Layout) : Layout := braced header "\x7d" body

/-- A header with a body in braces and a semicolon. -/
def declaration (header : String) (body : Layout) : Layout := braced header "\x7d;" body

/-- The spaces in front of a line. -/
def margin (depth : Nat) : List Char := List.replicate (4 * depth) ' '

/-- A line at a depth, without its line break. -/
def lineAt (depth : Nat) (text : String) : List Char :=
  match Text.trimEnd text.toList with
  | [] => []
  | kept => margin depth ++ kept

/-- The lines of a layout at a depth. -/
def lines (depth : Nat) : Layout → List (List Char)
  | empty => []
  | line text => [lineAt depth text]
  | blank => [[]]
  | append above below => above.lines depth ++ below.lines depth
  | indented body => body.lines (depth + 1)

/-- Lines as one text; every line ends in a line break. -/
def unlines (lines : List (List Char)) : List Char := lines.flatMap fun line => line ++ ['\n']

def render (layout : Layout) : String := String.ofList (unlines (layout.lines 0))

end Layout
end XrManifest.Cpp
