import FieldPost.Codec.Hex
import FieldPost.Codec.Sha256
import FieldPost.Text.Cut

/-!
What may be said about a destination or a form in messages, logs and analytics. User
names and passwords in a URL are hidden; a form is named by a short digest.
-/

namespace FieldPost.Redaction

open FieldPost.Text FieldPost.Codec

/-- Puts stars for what stands between the scheme and the first at sign before the first
slash. Text without such a part is left as it is. -/
def hideUser (url : List Char) : List Char :=
  match cutAt "://".toList url with
  | none => url
  | some (scheme, rest) =>
      match cutAtChar '@' (rest.takeWhile (· != '/')) with
      | none => url
      | some (user, _) => scheme ++ "://****@".toList ++ rest.drop (user.length + 1)

def url (text : String) : String := String.ofList (hideUser text.toList)

/-- Marks a form with a version apart from one without. -/
def formBytes (formId : String) : Option String → Bytes
  | none => Utf8.encode formId ++ [0]
  | some version => Utf8.encode formId ++ 1 :: Utf8.encode version

/-- Sixteen hexadecimal digits that name a form version without telling it. -/
def formLabel (formId : String) (version : Option String) : String :=
  Hex.encode ((Sha256.digest (formBytes formId version)).take 8)

end FieldPost.Redaction
