import FieldPost.Text.Utf8

/-!
Bytes as pairs of hexadecimal digits.
-/

namespace FieldPost.Codec.Hex

open FieldPost.Text

def digit (value : Nat) : Char := (Nat.digitChar value)

def pair (byte : UInt8) : List Char := [digit (byte.toNat / 16), digit (byte.toNat % 16)]

def encode (bytes : Bytes) : String := String.ofList (bytes.flatMap pair)

end FieldPost.Codec.Hex
