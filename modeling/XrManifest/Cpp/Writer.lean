import XrManifest.Cpp.Layout

/-!
# Writing line by line

A writer has the text that is written so far and the level of the next line. It is asked to
write by steps, some of which have steps of their own, written one level to the right. What a
layout says of a text as a whole, a writer does one line after the other.
-/

namespace XrManifest.Cpp

/-! ## Writers -/

/-- A writer: what is written so far, and how many levels to the right the next line starts. -/
structure Writer where
  buffer : List Char
  indent : Nat
deriving DecidableEq, Repr

namespace Writer

/-- Nothing is written, and the first line starts at the margin. -/
def new : Writer := ⟨[], 0⟩

def finish (writer : Writer) : String := String.ofList writer.buffer

/-- The spaces of a level. -/
def indentation : List Char := [' ', ' ', ' ', ' ']

/-- Writes a text behind what is written. -/
def push (text : List Char) : StateM Writer Unit :=
  modify fun writer => { writer with buffer := writer.buffer ++ text }

/-- Writes a line. White space at its end is left out, and where nothing else is in the line,
so are the spaces in front of it. -/
def line (text : String) : StateM Writer Unit := do
  let kept := Text.trimEnd text.toList
  unless kept.isEmpty do
    for _ in [0 : (← get).indent] do
      push indentation
  push kept
  push ['\n']

def blankLine : StateM Writer Unit := push ['\n']

/-- Writes an empty line, if `condition` holds. -/
def blankLineIf (condition : Bool) : StateM Writer Unit := do
  if condition then blankLine

section
variable {α : Type}

/-- Writes a body one level to the right. -/
def indented (body : StateM Writer α) : StateM Writer α := do
  modify fun writer => { writer with indent := writer.indent + 1 }
  let result ← body
  modify fun writer => { writer with indent := writer.indent - 1 }
  return result

/-- Writes a header, and a body between braces that stand on lines of their own. -/
def braced (header close : String) (body : StateM Writer α) : StateM Writer α := do
  line header
  line "\x7b"
  let result ← indented body
  line close
  return result

/-- Writes a header with a body in braces. -/
def block (header : String) (body : StateM Writer α) : StateM Writer α :=
  braced header "\x7d" body

/-- Writes a header with a body in braces and a semicolon. -/
def declaration (header : String) (body : StateM Writer α) : StateM Writer α :=
  braced header "\x7d;" body

end

end Writer

/-! ## Steps -/

/-- What a writer can be asked to write. -/
inductive Step where
  | line (text : String)
  | blankLine
  | blankLineIf (condition : Bool)
  | indented (body : List Step)
  | block (header : String) (body : List Step)
  | declaration (header : String) (body : List Step)
deriving Repr

namespace Step

mutual

def write : Step → StateM Writer Unit
  | line text => Writer.line text
  | blankLine => Writer.blankLine
  | blankLineIf condition => Writer.blankLineIf condition
  | indented body => Writer.indented (writeAll body)
  | block header body => Writer.block header (writeAll body)
  | declaration header body => Writer.declaration header (writeAll body)

def writeAll : List Step → StateM Writer Unit
  | [] => return
  | step :: rest => do
    write step
    writeAll rest

end

/-- The text that a new writer writes. -/
def written (steps : List Step) : String := ((writeAll steps).run .new).2.finish

end Step
end XrManifest.Cpp
