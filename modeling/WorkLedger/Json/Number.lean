import WorkLedger.Json.Value
import WorkLedger.Json.Float

/-!
# Numbers of JSON text

A number is read into one of three kinds: an integer that fits 64 unsigned bits, a negative
integer that fits 64 signed bits, or a double.

The double is built the way the reader sees the digits: at most 64 bits of significand, each
integer digit past them raising the exponent by one and each fractional digit past them
dropped, and an exponent of 32 signed bits. The significand then becomes the nearest double and
is scaled by one power of ten from a table of the nearest doubles to `10^0` … `10^308`, or, for
a negative exponent beyond the table, divided by `10^308` until the rest fits. Every step rounds,
so the result need not be the double nearest to the decimal: `3e23` reads as
`2.9999999999999997e+23`.

* `Number.scale` is that rule; it fails exactly when a nonzero significand scales past the
  largest double.
* `Number.ofInteger` sorts an integer without fraction or exponent into its kind.
-/

namespace WorkLedger.Json

/-- A number as the text reads it: an unsigned or a negative 64-bit integer, or a double. -/
inductive Number where
  /-- An integer without sign, below `2^64`. -/
  | unsigned (n : Nat)
  /-- A negative integer, at least `-2^63`. -/
  | negative (n : Int)
  /-- Any other number, as a double. -/
  | float (f : Float)

namespace Number

/-- The largest significand kept whole. -/
def significandMax : Nat := Nat.pow 2 64 - 1

/-- The largest exponent written after `e`. -/
def exponentMax : Nat := Nat.pow 2 31 - 1

/-- The exponents a scaling step can hold: 32 signed bits. -/
def clampExponent (e : Int) : Int := max (-Int.pow 2 31) (min e (Int.pow 2 31 - 1))

/-- Whether appending decimal digit `digit` to `acc` passes `limit`. -/
def overflows (acc digit limit : Nat) : Bool := acc * 10 + digit > limit

/-- The nearest double to `10^k`. -/
def powerOfTen (k : Nat) : Float := OfScientific.ofScientific 1 false k

/-- The largest power of ten in the table. -/
def tableTop : Nat := 308

/-- Divides `f` by `10^k`: in one step when the table has it, else by `10^308` and again, and
not further once the quotient is zero. -/
def divideByPowerOfTen (f : Float) (k : Nat) : Float :=
  if k ≤ tableTop then f / powerOfTen k
  else if f == 0 then f
  else divideByPowerOfTen (f / powerOfTen tableTop) (k - tableTop)
termination_by k
decreasing_by unfold tableTop at *; omega

/-- The double of `significand · 10^exponent` by the stepwise rule of the module comment, for a
significand below `2^64`; none when it is too large for a double. -/
def scale (significand : Nat) (exponent : Int) : Option Float :=
  let f := Float.ofNat significand
  if exponent < 0 then some (divideByPowerOfTen f exponent.natAbs)
  else if exponent.toNat ≤ tableTop then
    let product := f * powerOfTen exponent.toNat
    if product.isInf then none else some product
  else if f == 0 then some f
  else none

/-- The kind of an integer written without fraction or exponent, from its sign and digits
(below `2^64`): a negative one that does not fit 64 signed bits, and minus zero, are doubles. -/
def ofInteger (negative : Bool) (significand : Nat) : Number :=
  if !negative then .unsigned significand
  else if significand = 0 then .float (-0.0)
  else if significand ≤ Nat.pow 2 63 then .negative (-(significand : Int))
  else .float (-(Float.ofNat significand))

/-- The text of a number in a type error. -/
def describe : Number → String
  | .unsigned n => "integer `" ++ toString n ++ "`"
  | .negative n => "integer `" ++ Json.intText n ++ "`"
  | .float f => "floating point `" ++ FloatText.render f ++ "`"

/-- The value of a number as JSON. -/
def toJson : Number → Json
  | .unsigned n => .int n
  | .negative n => .int n
  | .float f => .float f

end Number

end WorkLedger.Json
