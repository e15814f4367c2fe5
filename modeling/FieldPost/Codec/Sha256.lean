import FieldPost.Text.Utf8

/-!
The SHA-256 digest of a byte sequence: the message is padded to whole blocks of 64
bytes, each block is expanded to 64 words, and 64 rounds fold it into eight words.
-/

namespace FieldPost.Codec.Sha256

open FieldPost.Text

abbrev Word := UInt32

/-- The first 32 fractional bits of the cube roots of the first 64 primes. -/
def roundConstants : List Word :=
  [0x428a2f98, 0x71374491, 0xb5c0fbcf, 0xe9b5dba5, 0x3956c25b, 0x59f111f1, 0x923f82a4, 0xab1c5ed5,
   0xd807aa98, 0x12835b01, 0x243185be, 0x550c7dc3, 0x72be5d74, 0x80deb1fe, 0x9bdc06a7, 0xc19bf174,
   0xe49b69c1, 0xefbe4786, 0x0fc19dc6, 0x240ca1cc, 0x2de92c6f, 0x4a7484aa, 0x5cb0a9dc, 0x76f988da,
   0x983e5152, 0xa831c66d, 0xb00327c8, 0xbf597fc7, 0xc6e00bf3, 0xd5a79147, 0x06ca6351, 0x14292967,
   0x27b70a85, 0x2e1b2138, 0x4d2c6dfc, 0x53380d13, 0x650a7354, 0x766a0abb, 0x81c2c92e, 0x92722c85,
   0xa2bfe8a1, 0xa81a664b, 0xc24b8b70, 0xc76c51a3, 0xd192e819, 0xd6990624, 0xf40e3585, 0x106aa070,
   0x19a4c116, 0x1e376c08, 0x2748774c, 0x34b0bcb5, 0x391c0cb3, 0x4ed8aa4a, 0x5b9cca4f, 0x682e6ff3,
   0x748f82ee, 0x78a5636f, 0x84c87814, 0x8cc70208, 0x90befffa, 0xa4506ceb, 0xbef9a3f7, 0xc67178f2]

structure Digest where
  a : Word
  b : Word
  c : Word
  d : Word
  e : Word
  f : Word
  g : Word
  h : Word
deriving DecidableEq, Repr

/-- The first 32 fractional bits of the square roots of the first eight primes. -/
def start : Digest :=
  ⟨0x6a09e667, 0xbb67ae85, 0x3c6ef372, 0xa54ff53a, 0x510e527f, 0x9b05688c, 0x1f83d9ab, 0x5be0cd19⟩

def rotate (count : Word) (word : Word) : Word := (word >>> count) ||| (word <<< (32 - count))

def Digest.round (digest : Digest) (constant word : Word) : Digest :=
  let mixed := digest.h + (rotate 6 digest.e ^^^ rotate 11 digest.e ^^^ rotate 25 digest.e) +
    ((digest.e &&& digest.f) ^^^ (~~~digest.e &&& digest.g)) + constant + word
  let chosen := (rotate 2 digest.a ^^^ rotate 13 digest.a ^^^ rotate 22 digest.a) +
    ((digest.a &&& digest.b) ^^^ (digest.a &&& digest.c) ^^^ (digest.b &&& digest.c))
  ⟨mixed + chosen, digest.a, digest.b, digest.c, digest.d + mixed, digest.e, digest.f, digest.g⟩

def Digest.add (left right : Digest) : Digest :=
  ⟨left.a + right.a, left.b + right.b, left.c + right.c, left.d + right.d,
   left.e + right.e, left.f + right.f, left.g + right.g, left.h + right.h⟩

/-- Adds `count` words to a schedule that is kept newest word first. -/
def extend : Nat → List Word → List Word
  | 0, schedule => schedule
  | count + 1, schedule =>
      let old := schedule.getD 14 0
      let recent := schedule.getD 1 0
      let word := schedule.getD 15 0 +
        (rotate 7 old ^^^ rotate 18 old ^^^ (old >>> 3)) + schedule.getD 6 0 +
        (rotate 17 recent ^^^ rotate 19 recent ^^^ (recent >>> 10))
      extend count (word :: schedule)

/-- The big-endian words of a byte sequence whose length is a multiple of four. -/
def words : Bytes → List Word
  | a :: b :: c :: d :: rest =>
      ((a.toUInt32 <<< 24) ||| (b.toUInt32 <<< 16) ||| (c.toUInt32 <<< 8) ||| d.toUInt32) ::
        words rest
  | _ => []

def block (digest : Digest) (words : List Word) : Digest :=
  let schedule := (extend 48 words.reverse).reverse
  digest.add ((roundConstants.zip schedule).foldl
    (fun rolling pair => rolling.round pair.1 pair.2) digest)

/-- Cuts a word sequence into blocks of sixteen; fewer than sixteen at the end are dropped. -/
def blocks (digest : Digest) : List Word → Digest
  | w0 :: w1 :: w2 :: w3 :: w4 :: w5 :: w6 :: w7 :: w8 :: w9 :: w10 :: w11 :: w12 :: w13 ::
      w14 :: w15 :: rest =>
      blocks (block digest [w0, w1, w2, w3, w4, w5, w6, w7, w8, w9, w10, w11, w12, w13, w14, w15])
        rest
  | _ => digest

/-- The big-endian bytes of a number, `count` of them. -/
def bigEndian : (count value : Nat) → Bytes
  | 0, _ => []
  | count + 1, value => bigEndian count (value / 256) ++ [UInt8.ofNat (value % 256)]

/-- The message, a one bit, zeros up to a whole block less eight bytes, and its length in bits. -/
def pad (message : Bytes) : Bytes :=
  message ++ 0x80 :: List.replicate ((119 - message.length % 64) % 64) 0 ++
    bigEndian 8 (8 * message.length)

def digest (message : Bytes) : Bytes :=
  let final := blocks start (words (pad message))
  [final.a, final.b, final.c, final.d, final.e, final.f, final.g, final.h].flatMap
    fun word => bigEndian 4 word.toNat

end FieldPost.Codec.Sha256
