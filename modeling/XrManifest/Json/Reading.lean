import XrManifest.Json.Numeral
import XrManifest.Json.Quoted

/-!
# Reading JSON text

`Json.read` accepts strict JSON: no comments, no trailing commas, one value and
nothing but white space around it. Arrays and objects may stand inside each other
up to a depth of 127; the reader of values recurses on the depth that is left,
the readers of elements and entries on the characters that are left.
-/

namespace XrManifest.Json

open XrManifest.Text

/-- The characters that may stand between the tokens of a JSON text. -/
def isSpace (c : Char) : Bool := c = ' ' || c = '\n' || c = '\t' || c = '\r'

/-- The text without the white space in front. -/
def skipSpaces (text : List Char) : List Char := text.dropWhile isSpace

/-- The rest of the word `null`, `true` or `false`, of which the first letter has
been read. -/
def readWord (word : List Char) (value : Json) : Reader Json := fun text =>
  match word, text with
  | [], rest => .ok (value, rest)
  | _ :: _, [] => .error (.here .endOfValue [])
  | letter :: word, c :: rest =>
    if c = letter then readWord word value rest else .error (.next .wordExpected (c :: rest))

/-- The elements of an array and its closing bracket, when an element is due.
The text has at most `bound` characters. -/
def readElements (element : Reader Json) : (bound : Nat) → Reader (List Json)
  | 0, _ => .error (.next .endOfValue [])
  | bound + 1, text => do
    let (value, rest) ← element text
    match skipSpaces rest with
    | [] => throw (.next .endOfList [])
    | ']' :: rest => return ([value], rest)
    | ',' :: rest =>
      match skipSpaces rest with
      | ']' :: rest => throw (.next .trailingComma (']' :: rest))
      | rest =>
        let (values, rest) ← readElements element bound rest
        return (value :: values, rest)
    | rest => throw (.next .listEndExpected rest)

/-- The elements of an array whose opening bracket has been read. -/
def readArray (element : Reader Json) : Reader Json := fun text =>
  match skipSpaces text with
  | [] => .error (.next .endOfList [])
  | ']' :: rest => .ok (.array [], rest)
  | text =>
    (readElements element text.length text).map fun (values, rest) => (.array values, rest)

/-- The key of an entry, when one is due, and the colon behind it. -/
def readKey : Reader String := fun text =>
  match text with
  | [] => .error (.next .endOfValue [])
  | '"' :: rest => do
    let (key, rest) ← Quoted.read rest
    match skipSpaces rest with
    | [] => throw (.next .endOfObject [])
    | ':' :: rest => return (key, rest)
    | rest => throw (.next .colonExpected rest)
  | text => .error (.next .keyExpected text)

/-- The entries of an object and its closing brace, when an entry is due. The
text has at most `bound` characters. -/
def readEntries (element : Reader Json) : (bound : Nat) → Reader (List (String × Json))
  | 0, _ => .error (.next .endOfValue [])
  | bound + 1, text => do
    let (key, rest) ← readKey text
    let (value, rest) ← element rest
    match skipSpaces rest with
    | [] => throw (.next .endOfObject [])
    | '\x7d' :: rest => return ([(key, value)], rest)
    | ',' :: rest =>
      match skipSpaces rest with
      | '\x7d' :: rest => throw (.next .trailingComma ('\x7d' :: rest))
      | rest =>
        let (entries, rest) ← readEntries element bound rest
        return ((key, value) :: entries, rest)
    | rest => throw (.next .objectEndExpected rest)

/-- The entries of an object whose opening brace has been read. -/
def readObject (element : Reader Json) : Reader Json := fun text =>
  match skipSpaces text with
  | [] => .error (.next .endOfObject [])
  | '\x7d' :: rest => .ok (.object [], rest)
  | text =>
    (readEntries element text.length text).map fun (entries, rest) => (.object entries, rest)

/-- The value at the front of a text, when `array` and `object` read the values
whose opening bracket stands at the front of their text. -/
def readValueWith (array object : Reader Json) : Reader Json := fun text =>
  match skipSpaces text with
  | [] => .error (.next .endOfValue [])
  | c :: rest =>
    if c = '"' then (Quoted.read rest).map fun (s, rest) => (.string s, rest)
    else if c = '[' then array (c :: rest)
    else if c = '\x7b' then object (c :: rest)
    else if c = 'n' then readWord ['u', 'l', 'l'] .null rest
    else if c = 't' then readWord ['r', 'u', 'e'] (.boolean true) rest
    else if c = 'f' then readWord ['a', 'l', 's', 'e'] (.boolean false) rest
    else if c = '-' ∨ c.isDigit then
      (Number.read (c :: rest)).map fun (n, rest) => (.number n, rest)
    else .error (.next .valueExpected (c :: rest))

/-- The value at the front of a text, in which arrays and objects may stand
inside each other up to `depth` deep. -/
def readValue : (depth : Nat) → Reader Json
  | 0 =>
    let tooDeep : Reader Json := fun text => .error (.next .nestedTooDeep text)
    readValueWith tooDeep tooDeep
  | depth + 1 =>
    readValueWith (fun text => readArray (readValue depth) text.tail)
      fun text => readObject (readValue depth) text.tail

/-- How deep arrays and objects may stand inside each other. -/
def maxDepth : Nat := 127

/-- The value that a whole text writes. -/
def readText (text : List Char) : Except Fault Json := do
  let (value, rest) ← readValue maxDepth text
  match skipSpaces rest with
  | [] => return value
  | rest => throw (.next .trailingText rest)

/-- The value that a JSON text writes, or what is wrong with the text. -/
def read (text : String) : Except SyntaxError Json :=
  (readText text.toList).mapError (SyntaxError.ofFault text.toList)

end XrManifest.Json
