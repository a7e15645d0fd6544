/-!
# Lines and columns

Diagnostics name a place in a text by its line and column. Both are computed
from the number of bytes that come before the place in the UTF-8 form of the
text, so a column counts bytes, not characters.
-/

namespace XrManifest.Text

/-- A place in a text: the number of its line, from 1, and the number of bytes
between the start of that line and the place. -/
structure Position where
  line : Nat
  column : Nat
deriving DecidableEq, Repr

/-- The number of bytes of the UTF-8 form of a text. -/
def byteSize : List Char → Nat
  | [] => 0
  | c :: rest => c.utf8Size + byteSize rest

namespace Position

def start : Position := ⟨1, 0⟩

/-- The place after the character `c` when it stands at `p`. -/
def after (p : Position) (c : Char) : Position :=
  if c = '\n' then ⟨p.line + 1, 0⟩ else ⟨p.line, p.column + c.utf8Size⟩

/-- The place `offset` bytes after `p` in the text that stands at `p`; an
offset inside a character counts the bytes of it that are covered. -/
def advance (p : Position) : List Char → (offset : Nat) → Position
  | [], _ => p
  | c :: rest, offset =>
    if c.utf8Size ≤ offset then (p.after c).advance rest (offset - c.utf8Size)
    else ⟨p.line, p.column + offset⟩

/-- The place `offset` bytes after the start of a text. -/
def ofOffset (text : List Char) (offset : Nat) : Position := start.advance text offset

def describe (p : Position) : String := s!"line {p.line} column {p.column}"

end Position
end XrManifest.Text
