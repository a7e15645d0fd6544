/-!
# The range of double-precision numbers

Which decimal numbers are too large for a double of 64 bits. A number is a
significand of at most 64 bits times a power of ten; both factors are rounded
to 53 significant bits before they are multiplied, and the number is out of range
when the product rounds to infinity.
-/

namespace XrManifest.Json.Binary64

/-- The number nearest to `n` that has at most 53 significant bits; of two such
numbers, the one whose last significant bit is 0. -/
def nearest (n : Nat) : Nat :=
  if n < Nat.pow 2 53 then n
  else
    let unit := Nat.pow 2 (n.log2 - 52)
    let below := n / unit
    let rest := n % unit
    if unit < 2 * rest ∨ (unit = 2 * rest ∧ below % 2 = 1) then (below + 1) * unit
    else below * unit

/-- The least number that rounds to infinity: halfway between the largest
double, `2 ^ 1024 - 2 ^ 971`, and `2 ^ 1024`. -/
def overflowBound : Nat := Nat.pow 2 1024 - Nat.pow 2 970

/-- The largest power of ten that is a finite double. -/
def maxPower : Int := 308

/-- Whether `significand * 10 ^ exponent` is out of the range of doubles. -/
def exceeds (significand : Nat) (exponent : Int) : Bool :=
  significand ≠ 0 ∧ 0 ≤ exponent ∧
    (maxPower < exponent ∨
      overflowBound ≤ nearest significand * nearest (Nat.pow 10 exponent.toNat))

end XrManifest.Json.Binary64
