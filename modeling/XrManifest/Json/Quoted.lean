import XrManifest.Json.SyntaxError

/-!
# Strings of JSON text

`Quoted.read` takes the characters of a string from a text that stands behind
the opening quote; `Quoted.write` puts a string in quotes. Written strings
escape only the quote, the backslash and the characters below space.
-/

namespace XrManifest.Json.Quoted

open XrManifest.Text

/-! ## Reading -/

def hexDigit? (c : Char) : Option Nat :=
  if c.isDigit then some (c.toNat - '0'.toNat)
  else if 'a' ≤ c ∧ c ≤ 'f' then some (c.toNat - 'a'.toNat + 10)
  else if 'A' ≤ c ∧ c ≤ 'F' then some (c.toNat - 'A'.toNat + 10)
  else none

/-- The number that the four hexadecimal digits at the front of a text write. -/
def hexQuad? : List Char → Option Nat
  | a :: b :: c :: d :: _ => do
    let a ← hexDigit? a
    let b ← hexDigit? b
    let c ← hexDigit? c
    let d ← hexDigit? d
    return ((a * 16 + b) * 16 + c) * 16 + d
  | _ => none

/-- Four hexadecimal digits have to stand at the front of the text. Where they
do not, four bytes are looked at all the same. -/
def hexQuad (text : List Char) : Except Fault Nat :=
  match hexQuad? text with
  | some code => .ok code
  | none =>
    if byteSize text < 4 then .error (.here .endOfString [])
    else .error ⟨.invalidEscape, text, 4⟩

/-- Whether a code unit is the first half of a surrogate pair. -/
def isHighSurrogate (code : Nat) : Bool := 0xD800 ≤ code && code ≤ 0xDBFF

/-- Whether a code unit is the second half of a surrogate pair. -/
def isLowSurrogate (code : Nat) : Bool := 0xDC00 ≤ code && code ≤ 0xDFFF

/-- The character that a surrogate pair stands for. -/
def surrogatePair (high low : Nat) : Char :=
  Char.ofNat ((high - 0xD800) * 0x400 + (low - 0xDC00) + 0x10000)

/-- The character whose code follows `\u`, and how many characters of the text
the code takes: four, or ten for a surrogate pair. -/
def unicodeEscape (text : List Char) : Except Fault (Char × Nat) := do
  let code ← hexQuad text
  if isLowSurrogate code then
    throw (.here .loneSurrogate (text.drop 4))
  else if isHighSurrogate code then
    match text.drop 4 with
    | '\\' :: 'u' :: rest =>
      let low ← hexQuad rest
      if isLowSurrogate low then return (surrogatePair code low, 10)
      else throw (.here .loneSurrogate (rest.drop 4))
    | ['\\'] => throw (.here .endOfString [])
    | '\\' :: rest => throw (.next .brokenSurrogatePair rest)
    | [] => throw (.here .endOfString [])
    | rest => throw (.next .brokenSurrogatePair rest)
  else
    return (Char.ofNat code, 4)

/-- The character that an escape of one letter stands for. -/
def shortEscape? : Char → Option Char
  | '"' => some '"'
  | '\\' => some '\\'
  | '/' => some '/'
  | 'b' => some '\x08'
  | 'f' => some '\x0c'
  | 'n' => some '\n'
  | 'r' => some '\r'
  | 't' => some '\t'
  | _ => none

/-- The character that the escape after a backslash stands for, and how many
characters of the text the escape takes. -/
def escape (text : List Char) : Except Fault (Char × Nat) :=
  match text with
  | [] => .error (.here .endOfString [])
  | 'u' :: rest => (unicodeEscape rest).map fun (c, count) => (c, count + 1)
  | letter :: _ =>
    match shortEscape? letter with
    | some c => .ok (c, 1)
    | none => .error (.next .invalidEscape text)

/-- The characters up to the closing quote, when the first `skip` characters of
the text belong to an escape that has been read already. -/
def readFrom : (skip : Nat) → Reader (List Char)
  | _, [] => .error (.here .endOfString [])
  | skip + 1, _ :: rest => readFrom skip rest
  | 0, c :: rest =>
    if c = '"' then .ok ([], rest)
    else if c = '\\' then
      match escape rest with
      | .error fault => .error fault
      | .ok (d, count) => (readFrom count rest).map fun (cs, rest) => (d :: cs, rest)
    else if c.toNat < 0x20 then .error (.next .controlCharacter (c :: rest))
    else (readFrom 0 rest).map fun (cs, rest) => (c :: cs, rest)

/-- The string whose opening quote has been read. -/
def read : Reader String := fun text =>
  (readFrom 0 text).map fun (cs, rest) => (String.ofList cs, rest)

/-! ## Writing -/

/-- The hexadecimal digit of a number below 16, in lower case. -/
def hexDigit (n : Nat) : Char :=
  if n < 10 then Char.ofNat ('0'.toNat + n) else Char.ofNat ('a'.toNat + (n - 10))

/-- How a character is written inside quotes. -/
def writeChar (c : Char) : List Char :=
  if c = '"' then ['\\', '"']
  else if c = '\\' then ['\\', '\\']
  else if c = '\x08' then ['\\', 'b']
  else if c = '\t' then ['\\', 't']
  else if c = '\n' then ['\\', 'n']
  else if c = '\x0c' then ['\\', 'f']
  else if c = '\r' then ['\\', 'r']
  else if c.toNat < 0x20 then
    ['\\', 'u', '0', '0', hexDigit (c.toNat / 16), hexDigit (c.toNat % 16)]
  else [c]

def write (text : String) : List Char := '"' :: text.toList.flatMap writeChar ++ ['"']

end XrManifest.Json.Quoted
