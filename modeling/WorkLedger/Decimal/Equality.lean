import WorkLedger.Decimal.Basic

/-!
# Equality of decimals

Two decimals are equal when their digits agree once the one with fewer places is scaled up to
the other's places. Zeros are equal whatever their scale, and numbers of different signs are
not.

When the places differ by fewer than twenty, the check does not build the scaled number. It
walks the 32-bit words of both digit strings, least significant first: each word of the fewer
places is multiplied by the power of ten in 64 bits, the carry from the word before is added,
and the low 32 bits must match the other word while the high ones carry on; a word left over
on the other side must equal the carry, any after it must be zero, and with no word left the
carry must be zero. A product that does not fit 64
bits ends the walk and the numbers are compared exactly, but a sum past 64 bits wraps and loses
its top carry, so some equal numbers are found unequal: `7922816251677867879` and
`7922816251677867879.0000000000` are, while `1000000000000000000` and
`1000000000000000000.0000000000` are equal. Order (`Decimal.cmp`) is numeric throughout.

* `Decimal.words` splits digits into 32-bit words.
* `Decimal.scaledWordsMatch` is the walk over the words.
* `Decimal.sameValue` is the equality; it is the `BEq` instance.
-/

namespace WorkLedger

namespace Decimal

/-- One more than the largest 32-bit word. -/
def wordBase : Nat := Nat.pow 2 32

/-- One more than the largest 64-bit product. -/
def wideBase : Nat := Nat.pow 2 64

/-- The 32-bit words of `n`, least significant first; none for zero. -/
def words : Nat → List Nat
  | 0 => []
  | n + 1 => (n + 1) % wordBase :: words ((n + 1) / wordBase)
decreasing_by exact Nat.div_lt_self (Nat.succ_pos n) (by decide)

/-- Whether the words `big` are the words `small` times `power`, walking from the least
significant word with the carry so far (see the module comment); none when a product does not
fit 64 bits and the walk gives up. -/
def scaledWordsMatch (power : Nat) : List Nat → List Nat → Nat → Option Bool
  | [], [], carry => some (carry == 0)
  | [], _ :: _, _ => some false
  | x :: xs, [], carry =>
    if x == carry % wordBase then scaledWordsMatch power xs [] 0 else some false
  | x :: xs, y :: ys, carry =>
    let product := y * power
    if wideBase ≤ product then none
    else
      let wide := (product + carry) % wideBase
      if x == wide % wordBase then scaledWordsMatch power xs ys (wide / wordBase) else some false

/-- The number of bits of `n`; zero for zero. -/
def bitLength (n : Nat) : Nat := if n = 0 then 0 else n.log2 + 1

/-- Whether `big` has too few bits to be `small · 10^k`, judged by bit lengths alone. -/
def tooShortForScaled (big small k : Nat) : Bool :=
  bitLength big < bitLength small || bitLength big + 1 < (Nat.pow 10 k).log2 + bitLength small

/-- Whether the decimal digits of `big` are those of `small` followed by `k` zeros. -/
def digitsShifted (big small k : Nat) : Bool :=
  let digits := (Nat.toDigits 10 big).reverse
  k < digits.length && (digits.take k).all (· == '0') &&
    digits.drop k == (Nat.toDigits 10 small).reverse

/-- Whether the digits `big` with `k` more places equal the digits `small`. -/
def scaledEqual (big small k : Nat) : Bool :=
  if k < 20 then
    !tooShortForScaled big small k &&
      (scaledWordsMatch (Nat.pow 10 k) (words big) (words small) 0).getD (big == small * Nat.pow 10 k)
  else digitsShifted big small k

/-- Equality of decimals (see the module comment). -/
def sameValue (a b : Decimal) : Bool :=
  if a.unscaled = 0 && b.unscaled = 0 then true
  else if a.unscaled.sign != b.unscaled.sign then false
  else if a.scale = b.scale then a.unscaled == b.unscaled
  else if b.scale < a.scale then
    scaledEqual a.unscaled.natAbs b.unscaled.natAbs (a.scale - b.scale).toNat
  else scaledEqual b.unscaled.natAbs a.unscaled.natAbs (b.scale - a.scale).toNat

instance : BEq Decimal := ⟨sameValue⟩

end Decimal

end WorkLedger
