/-!
# Shortest text of a double

A finite double is written with the fewest significant decimal digits that read back to it:
of the decimals on the coarsest grid that still lands inside the double's rounding interval,
the one nearer to the exact value. Two printers differ only when both are equally near: one
takes the even last digit, the other the larger one (`TieRule`). The interval holds the reals
that round to the double (ends included when its mantissa is even).

The digits are laid out positionally when the decimal point falls within the first sixteen
places (`2.5`, `0.001`, `100.0`, always with a fractional part), and otherwise as one digit,
the rest after a point, and an exponent with its sign (`1.8446744073709552e+19`, `1e-7`).
-/

namespace WorkLedger.FloatText

/-- Which of two equally near shortest candidates is written. -/
inductive TieRule where
  /-- The one with the even last digit. -/
  | even
  /-- The larger one. -/
  | up
  deriving DecidableEq

/-- The number of decimal digits of a positive natural number. -/
def digitCount (n : Nat) : Nat := (Nat.toDigits 10 n).length

/-- A positive rational `num / den` compared with `10^k`. -/
def cmpPow10 (num den : Nat) (k : Int) : Ordering :=
  if 0 ≤ k then compare num (den * Nat.pow 10 k.toNat) else compare (num * Nat.pow 10 k.natAbs) den

/-- The exponent `k` with `10^k ≤ num / den < 10^(k+1)`, for positive `num` and `den`. -/
def decimalExponent (num den : Nat) : Int :=
  let guess : Int := (digitCount num : Int) - (digitCount den : Int)
  if cmpPow10 num den guess = .lt then guess - 1 else guess

/-- Whether `c · 10^p` lies between `lo / den` and `hi / den` (ends included when `closed`). -/
def inInterval (c : Nat) (p : Int) (lo hi den : Nat) (closed : Bool) : Bool :=
  let scale := Nat.pow 10 p.natAbs
  let (x, l, h) :=
    if 0 ≤ p then (c * scale * den, lo, hi) else (c * den, lo * scale, hi * scale)
  if closed then l ≤ x && x ≤ h else l < x && x < h

/-- The distance from `c · 10^p` to `v / den`, scaled by a positive factor common to all
candidates of the same `p`. -/
def distance (c : Nat) (p : Int) (v den : Nat) : Nat :=
  let scale := Nat.pow 10 p.natAbs
  let (x, y) := if 0 ≤ p then (c * scale * den, v) else (c * den, v * scale)
  if x ≤ y then y - x else x - y

/-- The shortest digits `d` and exponent `k` with `d · 10^k` inside the rounding interval of
the double `m · 2^e`, of two such the nearer to it and of two as near the one `rule` picks;
`tightBelow` says the gap to the next smaller double is half as wide. -/
def shortest (rule : TieRule) (m : Nat) (e : Int) (tightBelow : Bool) : Nat × Int :=
  -- everything is scaled by `den = 2^s` so that the interval's ends are whole numbers
  let s : Nat := (2 - e).toNat
  let v := m * Nat.pow 2 (e + s).toNat
  let halfUp := Nat.pow 2 (e - 1 + s).toNat
  let halfDown := if tightBelow then Nat.pow 2 (e - 2 + s).toNat else halfUp
  let den := Nat.pow 2 s
  let lo := v - halfDown
  let hi := v + halfUp
  let closed := m % 2 = 0
  let top := decimalExponent v den
  let pick (n : Nat) : Option (Nat × Int) :=
    let p := top - n + 1
    let scale := Nat.pow 10 p.natAbs
    let below := if 0 ≤ p then v / (den * scale) else v * scale / den
    let candidates := [below, below + 1].filter fun c => 0 < c && inInterval c p lo hi den closed
    match candidates with
    | [] => none
    | [c] => some (c, p)
    | c :: d :: _ =>
      match compare (distance d p v den) (distance c p v den) with
      | .lt => some (d, p)
      | .gt => some (c, p)
      | .eq => if rule = .up || d % 2 = 0 then some (d, p) else some (c, p)
  match (List.range 17).findSome? (fun i => pick (i + 1)) with
  | some r => r
  | none => (m, e)

/-- Drops trailing zeros of the digits, raising the exponent. -/
def normalize (d : Nat) (k : Int) (fuel : Nat) : Nat × Int :=
  match fuel with
  | 0 => (d, k)
  | fuel + 1 => if d % 10 = 0 && d ≠ 0 then normalize (d / 10) (k + 1) fuel else (d, k)

/-- Lays out digits `d` times `10^k` (see the module comment). -/
def layout (d : Nat) (k : Int) : String :=
  let digits := Nat.toDigits 10 d
  let len : Int := digits.length
  let kk := len + k
  if 0 ≤ k && kk ≤ 16 then
    String.ofList digits ++ String.ofList (List.replicate k.toNat '0') ++ ".0"
  else if 0 < kk && kk ≤ 16 then
    String.ofList (digits.take kk.toNat) ++ "." ++ String.ofList (digits.drop kk.toNat)
  else if -5 < kk && kk ≤ 0 then
    "0." ++ String.ofList (List.replicate kk.natAbs '0') ++ String.ofList digits
  else
    let exponent := kk - 1
    let mantissa := match digits with
      | first :: rest@(_ :: _) => String.ofList (first :: '.' :: rest)
      | _ => String.ofList digits
    mantissa ++ "e" ++ (if exponent < 0 then "-" else "+") ++ toString exponent.natAbs

/-- What a double is: not a number, infinite, zero, or the shortest digits times a power of
ten; with its sign. -/
inductive Reading where
  | notANumber
  | infinite (negative : Bool)
  | zero (negative : Bool)
  | finite (negative : Bool) (digits : Nat) (exponent : Int)

/-- Reads a double from its bits, breaking ties by `rule`. -/
def read (rule : TieRule) (f : Float) : Reading :=
  let bits := f.toBits
  let negative := bits >>> 63 == 1
  let biased := ((bits >>> 52) &&& 0x7FF).toNat
  let fraction := (bits &&& 0xFFFFFFFFFFFFF).toNat
  if biased = 0x7FF then
    if fraction = 0 then .infinite negative else .notANumber
  else if biased = 0 && fraction = 0 then .zero negative
  else
    let (m, e) : Nat × Int :=
      if biased = 0 then (fraction, -1074) else (fraction + Nat.pow 2 52, (biased : Int) - 1075)
    let (d, k) := shortest rule m e (fraction = 0 && 1 < biased)
    let (d, k) := normalize d k 20
    .finite negative d k

/-- The sign of a negative reading. -/
def signText (negative : Bool) : String := if negative then "-" else ""

/-- The shortest text of a double (see the module comment), ties to the even digit. -/
def render (f : Float) : String :=
  match read .even f with
  | .notANumber => "NaN"
  | .infinite n => signText n ++ "inf"
  | .zero n => signText n ++ "0.0"
  | .finite n d k => signText n ++ layout d k

/-- The shortest digits of a double written out in full, without an exponent, and with a
decimal point (`1000.0`, `0.0001`, `1.5`), ties to the larger digit; not-a-number and the
infinities by name. -/
def positional (f : Float) : String :=
  match read .up f with
  | .notANumber => "NaN"
  | .infinite n => signText n ++ "inf"
  | .zero n => signText n ++ "0.0"
  | .finite n d k =>
    let digits := Nat.toDigits 10 d
    let len : Int := digits.length
    let body :=
      if 0 ≤ k then String.ofList digits ++ String.ofList (List.replicate k.toNat '0') ++ ".0"
      else if 0 < len + k then
        String.ofList (digits.take (len + k).toNat) ++ "." ++ String.ofList (digits.drop (len + k).toNat)
      else "0." ++ String.ofList (List.replicate (len + k).natAbs '0') ++ String.ofList digits
    signText n ++ body

/-- The double nearest to `significand · 10^exponent`, negated when `negative`; infinite
beyond the range of doubles. -/
def ofDecimal (negative : Bool) (significand : Nat) (exponent : Int) : Float :=
  let magnitude : Int := (digitCount significand : Int) + exponent
  let value : Float :=
    if significand = 0 || magnitude < -400 then 0
    else if 400 < magnitude then 1 / 0
    else if 0 ≤ exponent then OfScientific.ofScientific significand false exponent.toNat
    else OfScientific.ofScientific significand true exponent.natAbs
  if negative then -value else value

end WorkLedger.FloatText
