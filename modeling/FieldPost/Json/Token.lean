import FieldPost.Json.Text

/-!
The tokens of a JSON text. A place that holds no token becomes a broken one, which ends the
list and remembers whether a string was begun there: where a key is wanted, only that one is
a fault of the string.
-/

namespace FieldPost

inductive JsonToken
  | openArray
  | closeArray
  | openObject
  | closeObject
  | comma
  | colon
  | scalar (value : Json)
  | string (value : String)
  | broken (inString : Bool) (fault : JsonFault)
deriving Repr

namespace JsonToken

def isSpace (char : Char) : Bool := char == ' ' || char == '\n' || char == '\t' || char == '\r'

/-- What follows a fixed word, or where the text leaves it. -/
def readWord : List Char → List Char → Except JsonFault (List Char)
  | [], rest => .ok rest
  | _ :: _, [] => .error .ended
  | wanted :: word, char :: rest => if wanted = char then readWord word rest else .error .misplaced

/-- A token after its first character, and what follows it. -/
def next (first : Char) (rest : List Char) : JsonToken × List Char :=
  let word (text : String) (value : Json) : JsonToken × List Char :=
    match readWord text.toList rest with
    | .ok rest => (.scalar value, rest)
    | .error fault => (.broken false fault, [])
  match first with
  | '[' => (.openArray, rest)
  | ']' => (.closeArray, rest)
  | '\x7b' => (.openObject, rest)
  | '\x7d' => (.closeObject, rest)
  | ',' => (.comma, rest)
  | ':' => (.colon, rest)
  | 'n' => word "ull" .null
  | 't' => word "rue" (.bool true)
  | 'f' => word "alse" (.bool false)
  | '"' =>
      match JsonText.read rest with
      | .ok (value, rest) => (.string value, rest)
      | .error fault => (.broken true fault, [])
  | _ =>
      if first = '-' ∨ first.isDigit then
        match JsonNumber.read (first :: rest) with
        | .ok (value, rest) => (.scalar (.number value), rest)
        | .error fault => (.broken false fault, [])
      else (.broken false .misplaced, [])

/-- The tokens of a text, for at most `fuel` characters that begin one or are space. -/
def scanFrom : (fuel : Nat) → List Char → List JsonToken
  | 0, _ => []
  | _ + 1, [] => []
  | fuel + 1, char :: rest =>
      if isSpace char then scanFrom fuel rest
      else (next char rest).1 :: scanFrom fuel (next char rest).2

/-- Each step takes at least one character, so the length of the text is fuel enough. -/
def scan (text : List Char) : List JsonToken := scanFrom text.length text

end JsonToken

end FieldPost
