import XrManifest.Json.Relaxed

/-!
# Overwriting relaxed JSON text

`Relaxed.strip` makes relaxed JSON text strict in one pass over its bytes. A comment is
overwritten with spaces when it is read, a trailing comma when the closing bracket
behind it is, and a string is passed over at once. No byte is added or taken away, so
what has been read so far is all the state there is, and the place of the last comma.
-/

namespace XrManifest.Json.Relaxed

/-! ## Strings and comments -/

/-- The number of bytes up to the end of the string whose opening quote stands in front
of them. The byte behind a backslash is passed over, whatever it is. -/
def stringEnd : List UInt8 → Nat
  | [] => 0
  | [_] => 1
  | b :: c :: rest =>
    if b = '\\'.toUInt8 then stringEnd rest + 2
    else if b = '"'.toUInt8 then 1
    else stringEnd (c :: rest) + 1

/-- The number of bytes in front of the first `*/`. -/
def blockEnd? : List UInt8 → Option Nat
  | [] => none
  | b :: rest =>
    if b = '*'.toUInt8 ∧ rest.head? = some '/'.toUInt8 then some 0
    else (blockEnd? rest).map (· + 1)

/-- Spaces in place of bytes; line breaks stay. -/
def blanks (bytes : List UInt8) : List UInt8 :=
  bytes.map fun b => if b = '\n'.toUInt8 then b else ' '.toUInt8

/-! ## The pass over the bytes -/

/-- What is known in front of the next byte: the bytes so far, as they are overwritten,
the place of a comma behind a value when nothing but white space and comments has come
since, and whether the last token ends a value. -/
structure Overwriting where
  out : List UInt8
  comma : Option Nat
  afterValue : Bool

namespace Overwriting

def start : Overwriting := ⟨[], none, false⟩

/-- The bytes so far when the comma turns out to be a trailing one. -/
def settled (o : Overwriting) : List UInt8 :=
  match o.comma with
  | some place => o.out.set place ' '.toUInt8
  | none => o.out

/-- A comment behind what has been read. -/
def comment (o : Overwriting) (bytes : List UInt8) : Overwriting :=
  { o with out := o.out ++ blanks bytes }

/-- A byte that belongs neither to a string nor to a comment. -/
def code (o : Overwriting) (b : UInt8) : Overwriting :=
  let c := Char.ofUInt8 b
  if c = ',' then ⟨o.out ++ [b], if o.afterValue then some o.out.length else none, false⟩
  else if isCloser c then ⟨o.settled ++ [b], none, true⟩
  else if isOpener c then ⟨o.out ++ [b], none, false⟩
  else if isSpace c then { o with out := o.out ++ [b] }
  else ⟨o.out ++ [b], none, true⟩

/-- The bytes of the whole text, of which the given ones are still to be read. Nothing
behind the start of a block comment that does not end is changed. -/
def run (o : Overwriting) (bytes : List UInt8) : List UInt8 :=
  match bytes with
  | [] => o.out
  | b :: rest =>
    if b = '"'.toUInt8 then
      let length := stringEnd rest
      run ⟨o.out ++ b :: rest.take length, none, true⟩ (rest.drop length)
    else if b = '/'.toUInt8 ∧ rest.head? = some '/'.toUInt8 then
      -- the line break is left to be read as code
      run (o.comment (b :: rest.takeWhile (· ≠ '\n'.toUInt8)))
        (rest.dropWhile (· ≠ '\n'.toUInt8))
    else if b = '/'.toUInt8 ∧ rest.head? = some '*'.toUInt8 then
      match blockEnd? rest.tail with
      | none => o.out ++ b :: rest
      | some length => run (o.comment (b :: rest.take (length + 3))) (rest.drop (length + 3))
    else run (o.code b) rest
termination_by bytes.length
decreasing_by
  · simp only [List.length_drop, List.length_cons]
    omega
  · have hrest := (List.dropWhile_sublist (· ≠ '\n'.toUInt8) (l := rest)).length_le
    simp only [List.length_cons]
    omega
  · simp only [List.length_drop, List.length_cons]
    omega
  · simp

end Overwriting

/-! ## Texts -/

/-- The bytes of the strict text of a relaxed one. -/
def overwritten (text : String) : ByteArray :=
  (Overwriting.start.run text.toUTF8.data.toList).toByteArray

/-- The strict text of a relaxed one, or the text as it is when its bytes are no text. -/
def strip (text : String) : String := (String.fromUTF8? (overwritten text)).getD text

end XrManifest.Json.Relaxed
