/-!
# Relaxed JSON text

A manifest may hold comments, `//` up to the end of the line and `/*` up to
`*/`, and a comma behind the last element of an array or the last entry of an
object. `Relaxed.toStrict` puts spaces in their place, as many as they have
bytes, and keeps every line break, so that each byte of strict text stands where
it stood before.

The text is read twice. `marked` finds the role of every character, then
`blanked` decides which characters become spaces.
-/

namespace XrManifest.Json.Relaxed

/-! ## Roles of characters -/

/-- What a character is part of: the JSON text itself, a string, a comment, or a
block comment that nothing ends, which runs to the end of the text. -/
inductive Role where
  | code
  | string
  | comment
  | unclosed
deriving DecidableEq, Repr

/-- Where a character stands. The second character of `/*` and of `*/` has a
scope of its own, and so has the character after a backslash in a string. -/
inductive Scope where
  | code
  | string
  | escaped
  | lineComment
  | blockStart
  | blockComment
  | blockEnd
  | unclosed
deriving DecidableEq, Repr

/-- Whether `*/` occurs in a text. -/
def endsBlock : List Char → Bool
  | '*' :: '/' :: _ => true
  | _ :: rest => endsBlock rest
  | [] => false

/-- The role of a character that stands in a scope with `rest` behind it, and
the scope of the next character. -/
def Scope.read (scope : Scope) (c : Char) (rest : List Char) : Role × Scope :=
  match scope with
  | code =>
    if c = '"' then (.string, string)
    else if c = '/' then
      match rest with
      | '/' :: _ => (.comment, lineComment)
      | '*' :: rest => if endsBlock rest then (.comment, blockStart) else (.unclosed, unclosed)
      | _ => (.code, code)
    else (.code, code)
  | string => (.string, if c = '\\' then escaped else if c = '"' then code else string)
  | escaped => (.string, string)
  | lineComment => if c = '\n' then (.code, code) else (.comment, lineComment)
  | blockStart => (.comment, blockComment)
  | blockComment => (.comment, if c = '*' ∧ rest.head? = some '/' then blockEnd else blockComment)
  | blockEnd => (.comment, code)
  | unclosed => (.unclosed, unclosed)

/-- Every character of a text with its role, when the first stands in `scope`. -/
def marked : Scope → List Char → List (Char × Role)
  | _, [] => []
  | scope, c :: rest =>
    let (role, next) := scope.read c rest
    (c, role) :: marked next rest

/-! ## Spaces for comments and trailing commas -/

/-- The white space around which a trailing comma is recognised. -/
def isSpace (c : Char) : Bool :=
  c = ' ' || c = '\t' || c = '\n' || c = '\x0c' || c = '\r'

/-- Whether a character closes an array or an object. -/
def isCloser (c : Char) : Bool := c = ']' || c = '\x7d'

/-- Whether a value is due behind a character. -/
def isOpener (c : Char) : Bool := c = '[' || c = '\x7b' || c = ':'

/-- Whether, white space and comments apart, a closing bracket comes next. -/
def closerFollows : List (Char × Role) → Bool
  | [] => false
  | (c, .code) :: rest => if isSpace c then closerFollows rest else isCloser c
  | (_, .comment) :: rest => closerFollows rest
  | _ => false

/-- Spaces in place of a character of a comment, one for each of its bytes. -/
def spaces (c : Char) : List Char :=
  if c = '\n' then [c] else List.replicate c.utf8Size ' '

/-- The text with spaces for comments and trailing commas. `afterValue` tells
whether the last token so far ends a value: only then can a comma be a trailing
one. -/
def blanked : (afterValue : Bool) → List (Char × Role) → List Char
  | _, [] => []
  | afterValue, (c, role) :: rest =>
    match role with
    | .comment => spaces c ++ blanked afterValue rest
    | .string => c :: blanked true rest
    | .unclosed => c :: blanked afterValue rest
    | .code =>
      if c = ',' then
        (if afterValue && closerFollows rest then ' ' else c) :: blanked false rest
      else if isSpace c then c :: blanked afterValue rest
      else c :: blanked (!isOpener c) rest

/-- The strict text of a relaxed one, as characters. -/
def strictChars (text : List Char) : List Char := blanked false (marked .code text)

/-- The strict text of a relaxed one. -/
def toStrict (text : String) : String := String.ofList (strictChars text.toList)

end XrManifest.Json.Relaxed
