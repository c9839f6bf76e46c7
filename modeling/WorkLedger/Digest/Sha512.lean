/-!
# SHA-512

The SHA-512 hash of FIPS 180-4 over `ByteArray`: padding, the eighty-word message schedule
and the compression rounds. The ledger only ever applies it twice in a row
(`WorkLedger.Digest.hashBytes`) and relies on no property of it; it is written as a fold over
blocks and over rounds so that every definition is total.
-/

namespace WorkLedger.Digest.Sha512

/-- The eight working words of the compression function. -/
structure State where
  a : UInt64
  b : UInt64
  c : UInt64
  d : UInt64
  e : UInt64
  f : UInt64
  g : UInt64
  h : UInt64

/-- The first sixty-four bits of the fractional parts of the square roots of the first eight
primes. -/
def State.initial : State :=
  ⟨0x6a09e667f3bcc908, 0xbb67ae8584caa73b, 0x3c6ef372fe94f82b, 0xa54ff53a5f1d36f1,
   0x510e527fade682d1, 0x9b05688c2b3e6c1f, 0x1f83d9abfb41bd6b, 0x5be0cd19137e2179⟩

/-- The first sixty-four bits of the fractional parts of the cube roots of the first eighty
primes, one per round. -/
def roundConstants : Array UInt64 := #[
  0x428a2f98d728ae22, 0x7137449123ef65cd, 0xb5c0fbcfec4d3b2f, 0xe9b5dba58189dbbc,
  0x3956c25bf348b538, 0x59f111f1b605d019, 0x923f82a4af194f9b, 0xab1c5ed5da6d8118,
  0xd807aa98a3030242, 0x12835b0145706fbe, 0x243185be4ee4b28c, 0x550c7dc3d5ffb4e2,
  0x72be5d74f27b896f, 0x80deb1fe3b1696b1, 0x9bdc06a725c71235, 0xc19bf174cf692694,
  0xe49b69c19ef14ad2, 0xefbe4786384f25e3, 0x0fc19dc68b8cd5b5, 0x240ca1cc77ac9c65,
  0x2de92c6f592b0275, 0x4a7484aa6ea6e483, 0x5cb0a9dcbd41fbd4, 0x76f988da831153b5,
  0x983e5152ee66dfab, 0xa831c66d2db43210, 0xb00327c898fb213f, 0xbf597fc7beef0ee4,
  0xc6e00bf33da88fc2, 0xd5a79147930aa725, 0x06ca6351e003826f, 0x142929670a0e6e70,
  0x27b70a8546d22ffc, 0x2e1b21385c26c926, 0x4d2c6dfc5ac42aed, 0x53380d139d95b3df,
  0x650a73548baf63de, 0x766a0abb3c77b2a8, 0x81c2c92e47edaee6, 0x92722c851482353b,
  0xa2bfe8a14cf10364, 0xa81a664bbc423001, 0xc24b8b70d0f89791, 0xc76c51a30654be30,
  0xd192e819d6ef5218, 0xd69906245565a910, 0xf40e35855771202a, 0x106aa07032bbd1b8,
  0x19a4c116b8d2d0c8, 0x1e376c085141ab53, 0x2748774cdf8eeb99, 0x34b0bcb5e19b48a8,
  0x391c0cb3c5c95a63, 0x4ed8aa4ae3418acb, 0x5b9cca4f7763e373, 0x682e6ff3d6b2b8a3,
  0x748f82ee5defb2fc, 0x78a5636f43172f60, 0x84c87814a1f0ab72, 0x8cc702081a6439ec,
  0x90befffa23631e28, 0xa4506cebde82bde9, 0xbef9a3f7b2c67915, 0xc67178f2e372532b,
  0xca273eceea26619c, 0xd186b8c721c0c207, 0xeada7dd6cde0eb1e, 0xf57d4f7fee6ed178,
  0x06f067aa72176fba, 0x0a637dc5a2c898a6, 0x113f9804bef90dae, 0x1b710b35131c471b,
  0x28db77f523047d84, 0x32caab7b40c72493, 0x3c9ebe0a15c9bebc, 0x431d67c49c100d4c,
  0x4cc5d4becb3e42b6, 0x597f299cfc657e2a, 0x5fcb6fab3ad6faec, 0x6c44198c4a475817]

/-- Rotation to the right by `n` places, for `0 < n < 64`. -/
@[inline] def rotr (x n : UInt64) : UInt64 := (x >>> n) ||| (x <<< (64 - n))

@[inline] def bigSigma0 (x : UInt64) : UInt64 := rotr x 28 ^^^ rotr x 34 ^^^ rotr x 39
@[inline] def bigSigma1 (x : UInt64) : UInt64 := rotr x 14 ^^^ rotr x 18 ^^^ rotr x 41
@[inline] def smallSigma0 (x : UInt64) : UInt64 := rotr x 1 ^^^ rotr x 8 ^^^ (x >>> 7)
@[inline] def smallSigma1 (x : UInt64) : UInt64 := rotr x 19 ^^^ rotr x 61 ^^^ (x >>> 6)

/-- Each bit of `e` chooses between the bits of `f` and `g`. -/
@[inline] def choose (e f g : UInt64) : UInt64 := (e &&& f) ^^^ (~~~e &&& g)

/-- The bitwise majority of three words. -/
@[inline] def majority (a b c : UInt64) : UInt64 := (a &&& b) ^^^ (a &&& c) ^^^ (b &&& c)

/-- The byte at `i` as a word, and zero past the end. -/
@[inline] def byteAt (bytes : ByteArray) (i : Nat) : UInt64 :=
  if h : i < bytes.size then bytes[i].toUInt64 else 0

/-- The big-endian word made of the eight bytes from `i`. -/
def wordAt (bytes : ByteArray) (i : Nat) : UInt64 :=
  (List.range 8).foldl (fun w k => (w <<< 8) ||| byteAt bytes (i + k)) 0

/-- The eighty schedule words of the block that starts at byte `offset`: sixteen read from the
block, each later one mixed from four earlier ones. -/
def schedule (bytes : ByteArray) (offset : Nat) : Array UInt64 :=
  let read := Nat.fold 16 (fun i _ w => w.push (wordAt bytes (offset + 8 * i))) (Array.mkEmpty 80)
  Nat.fold 64 (fun i _ w =>
    w.push (smallSigma1 (w.getD (i + 14) 0) + w.getD (i + 9) 0 +
      smallSigma0 (w.getD (i + 1) 0) + w.getD i 0)) read

/-- One compression round with round constant `k` and schedule word `w`. -/
@[inline] def State.round (s : State) (k w : UInt64) : State :=
  let t1 := s.h + bigSigma1 s.e + choose s.e s.f s.g + k + w
  let t2 := bigSigma0 s.a + majority s.a s.b s.c
  ⟨t1 + t2, s.a, s.b, s.c, s.d + t1, s.e, s.f, s.g⟩

/-- Word-wise sum of two states. -/
def State.add (s t : State) : State :=
  ⟨s.a + t.a, s.b + t.b, s.c + t.c, s.d + t.d, s.e + t.e, s.f + t.f, s.g + t.g, s.h + t.h⟩

/-- The compression of the block at byte `offset` into the chaining state `s`. -/
def State.compress (s : State) (bytes : ByteArray) (offset : Nat) : State :=
  let w := schedule bytes offset
  s.add (Nat.fold 80 (fun i _ t => t.round (roundConstants.getD i 0) (w.getD i 0)) s)

/-- The padded message: a one bit, zeros up to 112 modulo 128 bytes, then the bit length as a
128-bit big-endian number. -/
def pad (msg : ByteArray) : ByteArray :=
  let zeros := (239 - msg.size % 128) % 128
  let bits := 8 * msg.size
  let lengthBytes := (List.range 16).reverse.map fun k => (bits >>> (8 * k)).toUInt8
  (msg.push 0x80 ++ ByteArray.mk (Array.replicate zeros 0)) ++ ByteArray.mk lengthBytes.toArray

/-- The eight bytes of a word, most significant first. -/
def wordBytes (w : UInt64) : List UInt8 :=
  (List.range 8).reverse.map fun k => (w >>> (8 * k).toUInt64).toUInt8

/-- The 64-byte SHA-512 digest of `msg`. -/
def digest (msg : ByteArray) : ByteArray :=
  let padded := pad msg
  let s := Nat.fold (padded.size / 128) (fun i _ s => s.compress padded (128 * i)) State.initial
  ByteArray.mk ([s.a, s.b, s.c, s.d, s.e, s.f, s.g, s.h].flatMap wordBytes).toArray

end WorkLedger.Digest.Sha512
