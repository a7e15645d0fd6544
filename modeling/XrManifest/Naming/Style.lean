import XrManifest.Naming.Words
import XrManifest.Text.Alphanumeric
import XrManifest.Text.CaseFolding

/-!
# Naming styles

How a list of name fragments becomes one identifier. The fragments are joined
with `_` first, so only the joined text matters:

* `pascal` puts the words of the text together, each with its first character
  in upper case, and keeps the case of the others;
* `camel` is `pascal` with a first character in lower case;
* `snake` separates the words with `_` and puts all of them in lower case; its
  words are made of ASCII letters and digits, and also end where the case of
  the letters changes.

Only the letters `a` to `z` change their case.
-/

namespace XrManifest.Naming

open XrManifest.Text

/-- The styles that a run can be asked for by name. -/
inductive Style where
  | pascal
  | camel
  | snake
deriving DecidableEq, Repr

/-- The word with its first character in upper case. -/
def capitalized : List Char → List Char
  | [] => []
  | c :: rest => c.toUpper :: rest

/-- The word with its first character in lower case. -/
def uncapitalized : List Char → List Char
  | [] => []
  | c :: rest => c.toLower :: rest

/-- `grab_Value` becomes `GrabValue`. -/
def pascalCase (text : List Char) : List Char :=
  (runs isAlphanumeric text).flatMap capitalized

/-- `grab_Value` becomes `grabValue`. -/
def camelCase (text : List Char) : List Char := uncapitalized (pascalCase text)

/-- `grab_Value` becomes `grab_value`. -/
def snakeCase (text : List Char) : List Char :=
  ['_'].intercalate
    (((runs Char.isAlphanum text).flatMap caseWords).map fun word => word.map Char.toLower)

/-- The fragments of a name in one text. -/
def joined (fragments : List String) : List Char :=
  ['_'].intercalate (fragments.map String.toList)

namespace Style

/-- The identifier that a text becomes. -/
def convert : Style → List Char → List Char
  | pascal => pascalCase
  | camel => camelCase
  | snake => snakeCase

/-- The identifier that a list of name fragments becomes. -/
def rename (style : Style) (fragments : List String) : String :=
  String.ofList (style.convert (joined fragments))

def name : Style → String
  | pascal => "pascal"
  | camel => "camel"
  | snake => "snake"

/-- The style that is used when none is asked for. -/
def standard : Style := pascal

/-- Every style under its name. -/
def table : List (String × Style) := [pascal, camel, snake].map fun style => (style.name, style)

/-- The style of a name, given in any case. -/
def ofName? (text : String) : Option Style := findFolded? table text

end Style
end XrManifest.Naming
