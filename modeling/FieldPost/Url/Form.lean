import FieldPost.Url

/-!
Queries as lists of names and values, in the encoding of HTML forms: a space is a plus sign,
pairs are joined by ampersands, and an equals sign parts name from value.
-/

namespace FieldPost.Url

open FieldPost.Text

def encodeFieldChar (char : Char) : List Char :=
  if char = ' ' then ['+'] else Percent.encodeChar Percent.inForm char

def encodeField (text : List Char) : List Char := text.flatMap encodeFieldChar

def pairText (name value : List Char) : List Char := encodeField name ++ '=' :: encodeField value

/-- The URL with one more pair at the end of its query. -/
def appendPair (url : Url) (name value : String) : Url :=
  let pair := pairText name.toList value.toList
  { url with query := some (match url.query with
      | none => pair
      | some [] => pair
      | some query => query ++ '&' :: pair) }

def decodeField (text : List Char) : String :=
  String.ofList (Utf8.decodeLossy (Percent.decode
    (Utf8.encodeChars (text.map fun char => if char = '+' then ' ' else char))))

/-- The pairs of a query; empty pieces are none. -/
def decodeQuery (query : List Char) : List (String × String) :=
  ((splitOnChar '&' query).filter fun piece => !piece.isEmpty).map fun piece =>
    match cutAtChar '=' piece with
    | none => (decodeField piece, "")
    | some (name, value) => (decodeField name, decodeField value)

def pairs (url : Url) : List (String × String) := decodeQuery (url.query.getD [])

end FieldPost.Url
