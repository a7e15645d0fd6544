import XrManifest.Json.SyntaxError
import XrManifest.Json.Value
import XrManifest.Manifest.Location

/-!
# Errors of manifests

Why a text is not a manifest: it is not JSON, or a value of its document is not
what the schema asks for at that place.
-/

namespace XrManifest

/-- What the schema asks for at a place. -/
inductive Expected where
  | object
  | bindingsObject
  | array
  | string
  | boolean
  | int32
deriving DecidableEq, Repr

/-- How a diagnostic names what is asked for. -/
def Expected.describe : Expected → String
  | object => "an object"
  | bindingsObject => "an object in suggestedBindings"
  | array => "an array"
  | string => "a string"
  | boolean => "a boolean"
  | int32 => "a 32-bit integer"

/-- Why a text is not a manifest. -/
inductive ReadError where
  | notJson (error : Json.SyntaxError)
  | mismatch (location : Location) (expected : Expected) (found : Json.Kind)
  | boundTwice (location : Location) (action : String)
  | missing (location : Location) (property : String)
  | unknownActionType (location : Location) (text : String)
deriving DecidableEq, Repr

namespace ReadError

/-- The message about malformed input at a place. -/
def malformed (place message : String) : String :=
  "Malformed input at `" ++ place ++ "`: " ++ message

def message : ReadError → String
  | notJson error => malformed error.position.describe error.message
  | mismatch location expected found =>
    malformed location.describe
      ("expected " ++ expected.describe ++ " but got " ++ found.describe)
  | boundTwice location action =>
    malformed location.describe ("action `" ++ action ++ "` is bound more than once")
  | missing location property =>
    "Missing required field `" ++ property ++ "` at `" ++ location.describe ++ "`"
  | unknownActionType location text =>
    "Unknown action type `" ++ text ++ "` at `" ++ location.describe ++ "`"

end ReadError
end XrManifest
