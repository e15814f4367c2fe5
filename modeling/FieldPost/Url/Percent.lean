import FieldPost.Text.Utf8

/-!
Percent-encoding: bytes that a part of a URL cannot hold are written as a percent sign and two
hexadecimal digits. Each part has its own set of characters that have to be written so;
everything outside ASCII always has.
-/

namespace FieldPost.Percent

open FieldPost.Text

def upperDigit (value : Nat) : Char := (Nat.digitChar value).toUpper

def encodeByte (byte : UInt8) : List Char :=
  ['%', upperDigit (byte.toNat / 16), upperDigit (byte.toNat % 16)]

def encodeChar (mustEncode : Char → Bool) (char : Char) : List Char :=
  if mustEncode char then (Utf8.encodeChars [char]).flatMap encodeByte else [char]

def encode (mustEncode : Char → Bool) (text : List Char) : List Char :=
  text.flatMap (encodeChar mustEncode)

/-- Controls and everything outside ASCII. -/
def inControl (char : Char) : Bool := char.toNat < 0x20 || 0x7E < char.toNat

def inFragment (char : Char) : Bool := inControl char || " \"<>`".toList.contains char

def inQuery (char : Char) : Bool := inControl char || " \"#<>".toList.contains char

def inSpecialQuery (char : Char) : Bool := inQuery char || char == '\''

def inPath (char : Char) : Bool := inQuery char || "?^`\x7b\x7d".toList.contains char

def inUserinfo (char : Char) : Bool := inPath char || "/:;=@[\\]|".toList.contains char

/-- What is not kept in a form field: all but letters, digits and four marks. -/
def inForm (char : Char) : Bool := !(char.isAlphanum || "*-._".toList.contains char)

def digit? (byte : UInt8) : Option Nat :=
  let code := byte.toNat
  if 0x30 ≤ code ∧ code ≤ 0x39 then some (code - 0x30)
  else if 0x41 ≤ code ∧ code ≤ 0x46 then some (code - 0x41 + 10)
  else if 0x61 ≤ code ∧ code ≤ 0x66 then some (code - 0x61 + 10)
  else none

/-- A percent sign without two digits after it stands for itself. -/
def decode : Bytes → Bytes
  | 0x25 :: high :: low :: rest =>
      match digit? high, digit? low with
      | some high, some low => UInt8.ofNat (high * 16 + low) :: decode rest
      | _, _ => 0x25 :: decode (high :: low :: rest)
  | byte :: rest => byte :: decode rest
  | [] => []

end FieldPost.Percent
