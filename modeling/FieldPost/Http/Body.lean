import FieldPost.Text.Blank
import FieldPost.Text.Cut
import FieldPost.Text.Windows1252

/-!
The text of a response body. A byte order mark tells UTF-8 and does not belong to the text;
without one the content type may name another encoding, of which only the western single-byte
one is known, and all others are taken for UTF-8.
-/

namespace FieldPost.Http

open FieldPost.Text

/-- The names of the western single-byte encoding, in small letters. -/
def westernNames : List String :=
  ["ansi_x3.4-1968", "ascii", "cp1252", "cp819", "csisolatin1", "ibm819", "iso-8859-1",
   "iso-ir-100", "iso8859-1", "iso88591", "iso_8859-1", "iso_8859-1:1987", "l1", "latin1",
   "us-ascii", "windows-1252", "x-cp1252"]

def readParameter (text : List Char) : Option (List Char × List Char) :=
  (cutAtChar '=' (trim text)).map fun sides =>
    (sides.1.map Char.toLower, (trim sides.2).filter (· != '"'))

/-- The encoding that a content type names, in small letters. -/
def charset? (contentType : String) : Option String :=
  match splitOnChar ';' contentType.toList with
  | [] => none
  | _ :: parameters =>
      ((parameters.filterMap readParameter).lookup "charset".toList).map fun name =>
        String.ofList (name.map Char.toLower)

def isWestern (contentType : Option String) : Bool :=
  match contentType.bind charset? with
  | some name => westernNames.contains name
  | none => false

def bodyText (contentType : Option String) (body : Bytes) : String :=
  String.ofList (match body with
    | 0xEF :: 0xBB :: 0xBF :: rest => Utf8.decodeLossy rest
    | body =>
        if isWestern contentType then Windows1252.decode body else Utf8.decodeLossy body)

end FieldPost.Http
