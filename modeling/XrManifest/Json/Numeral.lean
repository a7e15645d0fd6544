import XrManifest.Json.Binary64
import XrManifest.Json.SyntaxError
import XrManifest.Json.Value

/-!
# Numbers of JSON text

A number is read in two steps: `Numeral.read` takes the digits of its parts from
the text, and `Numeral.value` decides which number they write, which can fail
when that is out of range.
-/

namespace XrManifest.Json

/-- The parts of a number as it is written. The exponent is the sign, true for
minus, and the digits behind it. -/
structure Numeral where
  negative : Bool
  whole : List Char
  fraction : Option (List Char)
  exponent : Option (Bool × List Char)
deriving DecidableEq, Repr

namespace Numeral

/-! ## The parts of a number -/

/-- The digits at the front of a text, of which there has to be one. -/
def readDigits : Reader (List Char) := fun text =>
  match text with
  | [] => .error (.next .endOfValue [])
  | c :: rest =>
    if c.isDigit then .ok (c :: rest.takeWhile Char.isDigit, rest.dropWhile Char.isDigit)
    else .error (.next .invalidNumber text)

/-- The digits in front of the point: a number that starts with 0 has no other. -/
def readWhole : Reader (List Char) := fun text => do
  let (digits, rest) ← readDigits text
  match digits with
  | '0' :: _ :: _ => throw (.next .invalidNumber text.tail)
  | _ => return (digits, rest)

/-- The digits behind the point, where there is one. -/
def readFraction : Reader (Option (List Char)) := fun text =>
  match text with
  | '.' :: rest => (readDigits rest).map fun (digits, rest) => (some digits, rest)
  | _ => .ok (none, text)

/-- The sign of an exponent, and the text behind it. -/
def exponentSign : List Char → Bool × List Char
  | '-' :: rest => (true, rest)
  | '+' :: rest => (false, rest)
  | text => (false, text)

/-- The exponent, where there is one. -/
def readExponent : Reader (Option (Bool × List Char)) := fun text =>
  match text with
  | c :: rest =>
    if c = 'e' ∨ c = 'E' then
      let (negative, rest) := exponentSign rest
      (readDigits rest).map fun (digits, rest) => (some (negative, digits), rest)
    else .ok (none, text)
  | [] => .ok (none, text)

/-- The sign of a number, and the text behind it. -/
def sign : List Char → Bool × List Char
  | '-' :: rest => (true, rest)
  | text => (false, text)

/-- The parts of the number at the front of a text. -/
def read : Reader Numeral := fun text => do
  let (negative, rest) := sign text
  let (whole, rest) ← readWhole rest
  let (fraction, rest) ← readFraction rest
  let (exponent, rest) ← readExponent rest
  return (⟨negative, whole, fraction, exponent⟩, rest)

/-! ## The value of a number -/

/-- Appends digits to a number as long as it does not pass `limit`. Gives the
number and the digits that are left. -/
def absorb (limit : Nat) : Nat → List Char → Nat × List Char
  | n, [] => (n, [])
  | n, digit :: rest =>
    let more := n * 10 + (digit.toNat - '0'.toNat)
    if more ≤ limit then absorb limit more rest else (n, digit :: rest)

def maxSignificand : Nat := UInt64.size - 1

def maxExponent : Nat := Int32.maxValue.toInt.toNat

/-- The significand of a number and the power of ten that goes with it, its
written exponent apart. Digits that do not fit are dropped; a digit dropped in
front of the point raises the power, one kept behind the point lowers it. -/
def significand (n : Numeral) : Nat × Int :=
  let fraction := n.fraction.getD []
  let (whole, dropped) := absorb maxSignificand 0 n.whole
  let (both, unused) := absorb maxSignificand whole fraction
  (both, dropped.length - (fraction.length - unused.length))

/-- The integer that a number without fraction and exponent writes, unless it is
`-0` or does not fit 64 bits. -/
def integer? (n : Numeral) : Option Int :=
  let value := Nat.ofDigitChars 10 n.whole 0
  if n.fraction.isSome ∨ n.exponent.isSome then none
  else if n.negative then
    if 0 < value ∧ Int64.minValue.toInt ≤ -value then some (-value) else none
  else if value < UInt64.size then some value else none

/-- The number `significand * 10 ^ exponent`, unless it is out of range. -/
def scaled (negative : Bool) (significand : Nat) (exponent : Int) (rest : List Char) :
    Except Fault Number :=
  if Binary64.exceeds significand exponent then .error (.here .numberOutOfRange rest)
  else .ok (.decimal negative significand exponent)

/-- The number that the parts write, in front of the text `rest`. An exponent
that does not fit makes a number too large or zero. -/
def value (n : Numeral) (rest : List Char) : Except Fault Number :=
  match n.integer? with
  | some i => .ok (.integer i)
  | none =>
    let (significand, power) := n.significand
    match n.exponent with
    | none => scaled n.negative significand power rest
    | some (negative, digits) =>
      match absorb maxExponent 0 digits with
      | (exponent, []) =>
        scaled n.negative significand (if negative then power - exponent else power + exponent) rest
      | (_, _ :: left) =>
        if significand ≠ 0 ∧ ¬ negative then .error (.here .numberOutOfRange (left ++ rest))
        else .ok (.decimal n.negative 0 0)

end Numeral

/-- The number at the front of a text. -/
def Number.read : Reader Number := fun text => do
  let (numeral, rest) ← Numeral.read text
  return (← numeral.value rest, rest)

end XrManifest.Json
