import XrManifest.Text.Position

/-!
# Syntax errors of JSON text

What can be wrong with a JSON text and where a diagnostic places it. A reader
that stops raises a `Fault`: the cause, the text it has not read, and how many
bytes of that text it has looked at. Measured against the whole text this gives
a byte offset, and from it the line and column of the `SyntaxError`.
-/

namespace XrManifest.Json

open XrManifest.Text

/-- What is wrong with a JSON text. -/
inductive SyntaxCause where
  | endOfValue
  | endOfString
  | endOfList
  | endOfObject
  | valueExpected
  | wordExpected
  | invalidNumber
  | numberOutOfRange
  | controlCharacter
  | invalidEscape
  | loneSurrogate
  | brokenSurrogatePair
  | listEndExpected
  | objectEndExpected
  | colonExpected
  | keyExpected
  | trailingComma
  | trailingText
  | nestedTooDeep
deriving DecidableEq, Repr

def SyntaxCause.describe : SyntaxCause → String
  | endOfValue => "EOF while parsing a value"
  | endOfString => "EOF while parsing a string"
  | endOfList => "EOF while parsing a list"
  | endOfObject => "EOF while parsing an object"
  | valueExpected => "expected value"
  | wordExpected => "expected ident"
  | invalidNumber => "invalid number"
  | numberOutOfRange => "number out of range"
  | controlCharacter => "control character (\\u0000-\\u001F) found while parsing a string"
  | invalidEscape => "invalid escape"
  | loneSurrogate => "lone leading surrogate in hex escape"
  | brokenSurrogatePair => "unexpected end of hex escape"
  | listEndExpected => "expected `,` or `]`"
  | objectEndExpected => "expected `,` or `\x7d`"
  | colonExpected => "expected `:`"
  | keyExpected => "key must be a string"
  | trailingComma => "trailing comma"
  | trailingText => "trailing characters"
  | nestedTooDeep => "recursion limit exceeded"

/-- Why and where a reader stopped: `ahead` bytes into the text `unread`. -/
structure Fault where
  cause : SyntaxCause
  unread : List Char
  ahead : Nat
deriving DecidableEq, Repr

namespace Fault

/-- A fault of what has been read so far. -/
def here (cause : SyntaxCause) (unread : List Char) : Fault := ⟨cause, unread, 0⟩

/-- A fault of the next byte, or of the end of the text where there is none. -/
def next (cause : SyntaxCause) (unread : List Char) : Fault := ⟨cause, unread, 1⟩

/-- The number of bytes of `text` in front of the place of a fault. -/
def offset (text : List Char) (fault : Fault) : Nat :=
  min (byteSize text - byteSize fault.unread + fault.ahead) (byteSize text)

end Fault

/-- What is wrong with a JSON text, and where. -/
structure SyntaxError where
  cause : SyntaxCause
  position : Position
deriving DecidableEq, Repr

namespace SyntaxError

/-- The error that a fault is, in the text that was read. -/
def ofFault (text : List Char) (fault : Fault) : SyntaxError :=
  ⟨fault.cause, Position.ofOffset text (fault.offset text)⟩

def message (error : SyntaxError) : String :=
  error.cause.describe ++ " at " ++ error.position.describe

end SyntaxError

/-- A reader takes a value from the front of a text and gives back the rest. -/
abbrev Reader (α : Type) := List Char → Except Fault (α × List Char)

end XrManifest.Json
