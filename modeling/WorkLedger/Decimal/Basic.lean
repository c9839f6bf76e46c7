/-!
# Decimal numbers with a scale

A `Decimal` is an integer of unscaled digits together with a scale: it stands for
`unscaled × 10^(-scale)` and remembers how it was written, so `3.750` is `⟨3750, 3⟩` and differs
from `3.75` in its text while being equal to it as a number. Order is numeric (equality is in
`Decimal.Equality`); products are exact; quotients keep a hundred significant digits;
`roundTo` changes the scale under a rounding rule.
-/

namespace WorkLedger

/-- An exact decimal: `unscaled × 10^(-scale)`. -/
structure Decimal where
  /-- The digits, with the sign. -/
  unscaled : Int
  /-- How many of the digits stand after the decimal point (negative: zeros to append). -/
  scale : Int
  deriving Inhabited, Repr

namespace Decimal

/-- The number of decimal digits of `n`, counting `0` as one digit. -/
def digitCount (n : Nat) : Nat := (Nat.toDigits 10 n).length

/-- The integer `n` at scale zero. -/
def ofInt (n : Int) : Decimal := ⟨n, 0⟩

/-- The number one, written `1`. -/
def one : Decimal := ofInt 1

/-- The position of the leading digit: `d` lies in `[10^(e-1), 10^e)` for `e = magnitude d`. -/
def magnitude (d : Decimal) : Int := (digitCount d.unscaled.natAbs : Int) - d.scale

/-- Compares the absolute values of two non-zero decimals, first by the place of their leading
digit and then digit by digit, so that no power of ten larger than the written digits is
formed. -/
def compareAbs (a b : Decimal) : Ordering :=
  let ma := a.magnitude
  let mb := b.magnitude
  if ma < mb then .lt
  else if mb < ma then .gt
  else
    let x := a.unscaled.natAbs
    let y := b.unscaled.natAbs
    let lx := digitCount x
    let ly := digitCount y
    compare (x * Nat.pow 10 (ly - lx)) (y * Nat.pow 10 (lx - ly))

/-- Numeric order of decimals: the scale does not matter. -/
def cmp (a b : Decimal) : Ordering :=
  match compare a.unscaled.sign b.unscaled.sign with
  | .lt => .lt
  | .gt => .gt
  | .eq =>
    if a.unscaled = 0 then .eq
    else if 0 < a.unscaled then compareAbs a b
    else compareAbs b a

instance : Ord Decimal := ⟨cmp⟩

instance : LT Decimal := ⟨fun a b => cmp a b = .lt⟩
instance : LE Decimal := ⟨fun a b => cmp a b ≠ .gt⟩

instance (a b : Decimal) : Decidable (a < b) := inferInstanceAs (Decidable (cmp a b = .lt))
instance (a b : Decimal) : Decidable (a ≤ b) := inferInstanceAs (Decidable (cmp a b ≠ .gt))

/-- The larger of two decimals; on a tie the second one, so `max d 1 = 1` whenever `d` equals
one in value. -/
def maxRight (a b : Decimal) : Decimal := if cmp a b = .gt then a else b

/-- The exact product: digits multiply and scales add. -/
def mul (a b : Decimal) : Decimal := ⟨a.unscaled * b.unscaled, a.scale + b.scale⟩

instance : Mul Decimal := ⟨mul⟩

/-- How a dropped tail of digits moves the kept ones. -/
inductive Rounding where
  /-- To the nearer neighbour; a tie goes to the even one. -/
  | halfEven
  /-- Towards positive infinity. -/
  | ceiling
  deriving DecidableEq, Repr

/-- Rounds the natural number `q + r / den` (with `r < den`) of sign `negative` to an integer
magnitude under rule `mode`. -/
def roundQuotient (mode : Rounding) (negative : Bool) (q r den : Nat) : Nat :=
  if r = 0 then q
  else
    match mode with
    | .halfEven =>
      if 2 * r < den then q
      else if den < 2 * r then q + 1
      else if q % 2 = 0 then q else q + 1
    | .ceiling => if negative then q else q + 1

/-- The same number at scale `newScale`: digits are appended when the scale grows, and dropped
under rule `mode` when it shrinks. Zero keeps no digits. -/
def roundTo (d : Decimal) (newScale : Int) (mode : Rounding) : Decimal :=
  if d.unscaled = 0 then ⟨0, newScale⟩
  else if d.scale ≤ newScale then
    ⟨d.unscaled * Int.pow 10 (newScale - d.scale).toNat, newScale⟩
  else
    let drop := (d.scale - newScale).toNat
    let m := d.unscaled.natAbs
    let negative := d.unscaled < 0
    -- when more digits are dropped than there are, the quotient is zero and the tail is below
    -- a tenth of the unit, so one more digit than written is enough to decide the rounding
    let drop' := min drop (digitCount m + 1)
    let den := Nat.pow 10 drop'
    let q := if drop' < drop then 0 else m / den
    let r := if drop' < drop then m else m % den
    let den := if drop' < drop then 10 * den else den
    let k := roundQuotient mode negative q r den
    ⟨if negative then -(k : Int) else k, newScale⟩

/-- The number of significant digits a quotient keeps. -/
def quotientPrecision : Nat := 100

/-- Long division of `num / den` (both positive, `den ≤ num`) that keeps producing digits
after the first division while the remainder is non-zero and fewer than `quotientPrecision`
digits are written; a last dropped digit of five or more rounds the result up. Returns the
digits and how many were added after the point. -/
def longDivide (num den : Nat) : Nat × Nat :=
  let q := num / den
  let r := num % den
  if r = 0 then (q, 0)
  else
    let steps := quotientPrecision - digitCount q
    let (q, r, added) := (List.range steps).foldl (fun (acc : Nat × Nat × Nat) _ =>
      let (q, r, added) := acc
      if r = 0 then acc else (q * 10 + (r * 10) / den, (r * 10) % den, added + 1)) (q, r, 0)
    let next := (r * 10) / den
    (if r ≠ 0 ∧ 5 ≤ next then q + 1 else q, added)

/-- The number of times `num` has to be multiplied by ten to reach `den`, for positive
operands. -/
def shiftToReach (num den : Nat) : Nat :=
  let k := digitCount den - digitCount num
  if num * Nat.pow 10 k < den then k + 1 else k

/-- The quotient `a / b` for non-zero `b`, with at most a hundred significant digits: exact when
the digits end before that, otherwise rounded on the first dropped digit. A zero dividend or a
divisor equal to one gives the dividend back, and equal digits give one at the difference of
the scales. -/
def div (a b : Decimal) : Decimal :=
  if a.unscaled = 0 ∨ cmp b one = .eq then a
  else if a.unscaled = b.unscaled then ⟨1, a.scale - b.scale⟩
  else
    let num := a.unscaled.natAbs
    let den := b.unscaled.natAbs
    let shift := if num < den then shiftToReach num den else 0
    let (q, added) := longDivide (num * Nat.pow 10 shift) den
    let negative := (a.unscaled < 0) != (b.unscaled < 0)
    ⟨if negative then -(q : Int) else q, a.scale - b.scale + shift + added⟩

instance : Div Decimal := ⟨div⟩

end Decimal

end WorkLedger
