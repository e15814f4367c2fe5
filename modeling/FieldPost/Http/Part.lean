import FieldPost.Codec.Hex
import FieldPost.Text.Utf8

/-!
The parts of a multipart form, each a file with the name of its field. A field name that needs
it is written in percent encoding, which is marked by a star; in a file name only quotes, line
ends and the escape character itself are escaped.
-/

namespace FieldPost.Http

open FieldPost.Text

structure Part where
  name : String
  fileName : String
  mediaType : String
  content : Bytes
deriving DecidableEq, Repr

namespace Part

/-- The characters that a field name cannot show as they are. -/
def needsEncoding (char : Char) : Bool :=
  char.toNat ≤ 0x20 || 0x7F ≤ char.toNat || "\"<>`#?\x7b\x7d/%".toList.contains char

def encodeByte (byte : UInt8) : List Char :=
  '%' :: (Codec.Hex.encode [byte]).toList.map Char.toUpper

def encodeChar (char : Char) : List Char :=
  if needsEncoding char then (String.utf8EncodeChar char).flatMap encodeByte else [char]

def nameText (name : String) : String :=
  if name.toList.any needsEncoding then
    "name*=utf-8''" ++ String.ofList (name.toList.flatMap encodeChar)
  else "name=\"" ++ name ++ "\""

def escapeChar (char : Char) : List Char :=
  if char = '\\' ∨ char = '"' ∨ char = '\r' ∨ char = '\n' then ['\\', char] else [char]

def fileNameText (fileName : String) : String :=
  "filename=\"" ++ String.ofList (fileName.toList.flatMap escapeChar) ++ "\""

def headers (part : Part) : List String :=
  ["Content-Disposition: form-data; " ++ nameText part.name ++ "; " ++
      fileNameText part.fileName,
   "Content-Type: " ++ part.mediaType]

end Part

end FieldPost.Http
