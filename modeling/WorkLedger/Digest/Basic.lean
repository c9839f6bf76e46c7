import WorkLedger.Digest.Sha512
import WorkLedger.Digest.Hex

/-!
# Digests

A `Digest` is a string of bytes: the double SHA-512 of some data (64 bytes), or any bytes read
from hexadecimal text. Two digests are compared as numbers aligned at their last byte by
`maskWith`, which keeps the bits of the first that are also set in the second.
-/

namespace WorkLedger

/-- Bytes naming a piece of data, normally the 64 bytes of its double SHA-512. -/
structure Digest where
  /-- The bytes, most significant first. -/
  bytes : List UInt8
  deriving DecidableEq, Hashable, Inhabited, Repr

namespace Digest

/-- The width of a digest produced by hashing. -/
def width : Nat := 64

/-- The digest of 64 zero bytes, the previous hash of a chain's first block. -/
def zero : Digest := ⟨List.replicate width 0⟩

/-- The double SHA-512 of some bytes. -/
def ofData (data : ByteArray) : Digest :=
  ⟨(Sha512.digest (Sha512.digest data)).toList⟩

/-- The digest of the concatenation of several digests, in order. -/
def ofDigests (ds : List Digest) : Digest :=
  ofData (ByteArray.mk (ds.flatMap Digest.bytes).toArray)

/-- The digest of two digests side by side: the node above them in a Merkle tree. -/
def combine (left right : Digest) : Digest := ofDigests [left, right]

/-- The number of bytes. -/
def length (d : Digest) : Nat := d.bytes.length

/-- The lowercase hexadecimal text. -/
def hex (d : Digest) : String := Hex.encode d.bytes

instance : ToString Digest := ⟨hex⟩

/-- Reads a digest from hexadecimal text of either case. -/
def ofHex (text : String) : Except Hex.Error Digest := Digest.mk <$> Hex.decode text

/-- The bytes in the opposite order. -/
def reverse (d : Digest) : Digest := ⟨d.bytes.reverse⟩

/-- The bitwise AND with `mask`, as long as `d`: both are aligned at their last byte and a
missing leading byte of `mask` counts as zero. -/
def maskWith (d mask : Digest) : Digest :=
  ⟨List.replicate (d.length - mask.length) 0 ++
    List.zipWith (· &&& ·) (d.bytes.drop (d.length - mask.length))
      (mask.bytes.drop (mask.length - d.length))⟩

/-- Whether `d` lies under the target `t`: masking by `t` keeps every bit of `d`. -/
def meets (d t : Digest) : Bool := d.maskWith t == d

/-- Byte-wise lexicographic order. -/
def lexCompare (a b : Digest) : Ordering := compare a.bytes b.bytes

end Digest

end WorkLedger
