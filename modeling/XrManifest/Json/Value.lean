/-!
# JSON values

The value tree of a JSON text. An object is the list of its entries in the
order of the text; entries with the same key stay apart, so a reader of the tree
can see a repeated key.
-/

namespace XrManifest

/-- A JSON number. Integers from `-2 ^ 63` to `2 ^ 64 - 1` that are written
without a fraction or an exponent are exact. Every other number, `-0` included,
is kept as a signed significand of at most 64 bits times a power of ten. -/
inductive Json.Number where
  | integer (value : Int)
  | decimal (negative : Bool) (significand : Nat) (exponent : Int)
deriving DecidableEq, Repr

inductive Json where
  | null
  | boolean (value : Bool)
  | number (value : Json.Number)
  | string (value : String)
  | array (elements : List Json)
  | object (entries : List (String × Json))
deriving Repr

namespace Json

inductive Kind where
  | null
  | boolean
  | number
  | string
  | array
  | object
deriving DecidableEq, Repr

def kind : Json → Kind
  | .null => .null
  | .boolean _ => .boolean
  | .number _ => .number
  | .string _ => .string
  | .array _ => .array
  | .object _ => .object

/-- How a diagnostic names a kind of value. -/
def Kind.describe : Kind → String
  | null => "null"
  | boolean => "a boolean"
  | number => "a number"
  | string => "a string"
  | array => "an array"
  | object => "an object"

/-- The value of a number as a signed integer of 64 bits, where it is one. -/
def Number.toInt64? : Number → Option Int
  | integer value =>
    if Int64.minValue.toInt ≤ value ∧ value ≤ Int64.maxValue.toInt then some value else none
  | decimal .. => none

end Json
end XrManifest
