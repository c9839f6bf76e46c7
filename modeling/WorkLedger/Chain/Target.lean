import WorkLedger.Chain.Params

/-!
# Proof-of-work targets

A header meets its target when its hash, read as a big-endian number, has no bit outside the
target's bits. The target of difficulty `d` keeps the hash below
`2^(512 - maxZeroBits - s)`, where `s = ⌈log₂ ⌈d⌉⌉` is the number of halvings `d` asks for
(none when `⌈d⌉ ≤ 1`): the all-ones number shifted right by `maxZeroBits` and then by `s`,
written in 64 big-endian bytes. A target that would be empty keeps its last bit, so every
target admits at least the hash one.
-/

namespace WorkLedger.Target

/-- Halvings are counted up to this bound, beyond which every target is empty. -/
def maxHalvings : Nat := 512

/-- The number of halvings difficulty `d` asks for, `⌈log₂ ⌈d⌉⌉`, at most `maxHalvings`. -/
def halvings (d : Decimal) : Nat :=
  -- a difficulty with more than two hundred trailing zeros is above `2^512` already
  if d.scale < -200 then (if 0 < d.unscaled then maxHalvings else 0)
  else
    let c := (d.roundTo 0 .ceiling).unscaled
    if c ≤ 1 then 0 else min maxHalvings ((c - 1).toNat.log2 + 1)

/-- The target as a number: all ones in 512 bits, shifted right by the zero bits and by the
halvings. -/
def value (zeroBits : Nat) (shifts : Nat) : Nat :=
  if ChainParams.hashBits ≤ shifts then 0 else ((Nat.pow 2 ChainParams.hashBits - 1) >>> zeroBits) >>> shifts

/-- The 64 big-endian bytes of a number below `2^512`. -/
def bigEndian (n : Nat) : List UInt8 :=
  (List.range Digest.width).reverse.map fun i => (n >>> (8 * i)).toUInt8

/-- The target of difficulty `d` under parameters `p`, whose last byte is at least one. -/
def ofDifficulty (p : ChainParams) (d : Decimal) : Digest :=
  let bytes := bigEndian (value p.maxZeroBits.toNat (halvings d))
  ⟨bytes.dropLast ++ [max 1 (bytes.getLast?.getD 0)]⟩

/-- Whether a header's own hash meets the target of its own difficulty. -/
def headerMeets (p : ChainParams) (h : Header) : Bool :=
  h.hash.meets (ofDifficulty p h.difficulty)

end WorkLedger.Target
