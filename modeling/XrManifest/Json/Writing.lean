import XrManifest.Json.Quoted
import XrManifest.Json.Value

/-!
# Writing JSON text

`Json.write` puts a value in the shortest layout: no white space between tokens.
-/

namespace XrManifest.Json

def Number.write : Number → List Char
  | integer value => (toString value).toList
  | decimal negative significand exponent =>
    (if negative then ['-'] else []) ++ (toString significand).toList ++
      'e' :: (toString exponent).toList

mutual

def writeValue : Json → List Char
  | .null => ['n', 'u', 'l', 'l']
  | .boolean true => ['t', 'r', 'u', 'e']
  | .boolean false => ['f', 'a', 'l', 's', 'e']
  | .number n => n.write
  | .string s => Quoted.write s
  | .array elements => '[' :: writeElements elements ++ [']']
  | .object entries => '\x7b' :: writeEntries entries ++ ['\x7d']

/-- The texts of the elements of an array, separated by commas. -/
def writeElements : List Json → List Char
  | [] => []
  | [value] => writeValue value
  | value :: rest => writeValue value ++ ',' :: writeElements rest

/-- The texts of the entries of an object, separated by commas. -/
def writeEntries : List (String × Json) → List Char
  | [] => []
  | [(key, value)] => Quoted.write key ++ ':' :: writeValue value
  | (key, value) :: rest => Quoted.write key ++ ':' :: writeValue value ++ ',' :: writeEntries rest

end

def write (value : Json) : String := String.ofList (writeValue value)

end XrManifest.Json
