import FieldPost.Json.Number
import FieldPost.Codec.Hex
import FieldPost.Text.Utf8

/-!
Strings in JSON texts. Writing escapes quotes, backslashes and control characters and
nothing else. Reading resolves escapes and pairs of surrogates, and refuses bare control
characters and surrogates that stand alone.
-/

namespace FieldPost.JsonText

open FieldPost.Text FieldPost.Codec

def escape (char : Char) : List Char :=
  if char = '"' then ['\\', '"']
  else if char = '\\' then ['\\', '\\']
  else if char = '\n' then ['\\', 'n']
  else if char = '\r' then ['\\', 'r']
  else if char = '\t' then ['\\', 't']
  else if char.toNat = 0x08 then ['\\', 'b']
  else if char.toNat = 0x0C then ['\\', 'f']
  else if char.toNat < 0x20 then
    ['\\', 'u', '0', '0', Hex.digit (char.toNat / 16), Hex.digit (char.toNat % 16)]
  else [char]

def write (text : String) : List Char := '"' :: text.toList.flatMap escape ++ ['"']

/-- The four hexadecimal digits after a `u`. The text has to be long enough in bytes before
the digits are looked at. -/
def readUnit (text : List Char) : Except JsonFault (Nat × List Char) :=
  if (Utf8.encodeChars (text.take 4)).length < 4 then .error .ended
  else match text with
    | a :: b :: c :: d :: rest =>
        match Numeral.digit? 16 a, Numeral.digit? 16 b, Numeral.digit? 16 c, Numeral.digit? 16 d with
        | some a, some b, some c, some d => .ok (((a * 16 + b) * 16 + c) * 16 + d, rest)
        | _, _, _, _ => .error .misplaced
    | _ => .error .misplaced

/-- What follows a first surrogate: the escape of a second one. -/
def readSecond (text : List Char) : Except JsonFault (Nat × List Char) :=
  match text with
  | [] => .error .ended
  | '\\' :: [] => .error .ended
  | '\\' :: 'u' :: rest => do
      let (second, rest) ← readUnit rest
      if 0xDC00 ≤ second ∧ second ≤ 0xDFFF then .ok (second, rest) else .error .misplaced
  | _ => .error .misplaced

def readEscape : List Char → Except JsonFault (Char × List Char)
  | [] => .error .ended
  | '"' :: rest => .ok ('"', rest)
  | '\\' :: rest => .ok ('\\', rest)
  | '/' :: rest => .ok ('/', rest)
  | 'b' :: rest => .ok (Char.ofNat 0x08, rest)
  | 'f' :: rest => .ok (Char.ofNat 0x0C, rest)
  | 'n' :: rest => .ok ('\n', rest)
  | 'r' :: rest => .ok ('\r', rest)
  | 't' :: rest => .ok ('\t', rest)
  | 'u' :: rest => do
      let (unit, rest) ← readUnit rest
      if 0xDC00 ≤ unit ∧ unit ≤ 0xDFFF then .error .misplaced
      else if 0xD800 ≤ unit ∧ unit ≤ 0xDBFF then
        let (second, rest) ← readSecond rest
        .ok (Char.ofNat (0x10000 + (unit - 0xD800) * 0x400 + (second - 0xDC00)), rest)
      else .ok (Char.ofNat unit, rest)
  | _ => .error .misplaced

/-- The characters up to the closing quote, for at most `fuel` of them. -/
def readChars : (fuel : Nat) → List Char → Except JsonFault (List Char × List Char)
  | 0, _ => .error .ended
  | _ + 1, [] => .error .ended
  | fuel + 1, char :: rest =>
      if char = '"' then .ok ([], rest)
      else if char = '\\' then do
        let (resolved, rest) ← readEscape rest
        let (chars, rest) ← readChars fuel rest
        .ok (resolved :: chars, rest)
      else if char.toNat < 0x20 then .error .misplaced
      else do
        let (chars, rest) ← readChars fuel rest
        .ok (char :: chars, rest)

/-- A string after its opening quote. Each character takes at least one, so the length of the
text is fuel enough. -/
def read (text : List Char) : Except JsonFault (String × List Char) :=
  (readChars (text.length + 1) text).map fun taken => (String.ofList taken.1, taken.2)

end FieldPost.JsonText
