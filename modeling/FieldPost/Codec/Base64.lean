import FieldPost.Text.Utf8

/-!
Base 64 with the standard alphabet: three bytes become four characters, and a
last group of one or two bytes is filled up with equals signs.
-/

namespace FieldPost.Codec.Base64

open FieldPost.Text

def alphabet : List Char :=
  "ABCDEFGHIJKLMNOPQRSTUVWXYZabcdefghijklmnopqrstuvwxyz0123456789+/".toList

def symbol (value : Nat) : Char := alphabet.getD (value % 64) '='

def encodeChars : Bytes → List Char
  | [] => []
  | [a] => [symbol (a.toNat / 4), symbol (a.toNat * 16), '=', '=']
  | [a, b] => [symbol (a.toNat / 4), symbol (a.toNat * 16 + b.toNat / 16),
      symbol (b.toNat * 4), '=']
  | a :: b :: c :: rest =>
      symbol (a.toNat / 4) :: symbol (a.toNat * 16 + b.toNat / 16) ::
        symbol (b.toNat * 4 + c.toNat / 64) :: symbol c.toNat :: encodeChars rest

def encode (bytes : Bytes) : String := String.ofList (encodeChars bytes)

end FieldPost.Codec.Base64
