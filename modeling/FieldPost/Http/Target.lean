import FieldPost.Codec.Base64
import FieldPost.Url.Parser

/-!
Where a request goes. A text is a target when it is a URL with a scheme that requests are sent
over and a host that a request can name. A user in the URL is taken out of it and
authorizes the request instead.
-/

namespace FieldPost.Http

open FieldPost.Text

structure Target where
  url : Url
  user : Option (String × String) := none
deriving DecidableEq, Repr

inductive TargetProblem
  | unreadable
  | unusable (url : String)
deriving DecidableEq, Repr

def TargetProblem.message : TargetProblem → String
  | .unreadable => "builder error"
  | .unusable url => "builder error for url (" ++ url ++ ")"

namespace Target

/-- The text that percent encoding stands for, if its bytes are one. -/
def decode? (text : List Char) : Option String :=
  Utf8.decode? (Percent.decode (Utf8.encodeChars text))

/-- Name and password of the user in an authority. A name that is no text leaves the user where
it is; so does a password that is no text when there is no name. -/
def user? (authority : Authority) : Option (String × String) := do
  let username ← decode? authority.username
  let password :=
    if authority.password.isEmpty then none else decode? authority.password
  if username.isEmpty && password.isNone then none else some (username, password.getD "")

/-- Takes the user out of a URL. -/
def ofUrl (url : Url) : Target :=
  match url.authority with
  | none => ⟨url, none⟩
  | some authority =>
      match user? authority with
      | none => ⟨url, none⟩
      | some user =>
          ⟨{ url with authority := some { authority with username := [], password := [] } },
            some user⟩

/-- Characters that a host may have and a request line may not. -/
def isUnspeakable (char : Char) : Bool := "\"`\x7b\x7d".toList.contains char

/-- Requests are sent over these schemes only, and to hosts that they can name. -/
def isUsable (url : Url) : Bool :=
  (url.scheme == "http".toList || url.scheme == "https".toList) &&
    !((url.authority.map fun authority => authority.host.text).getD []).any isUnspeakable

def ofText (text : String) : Except TargetProblem Target :=
  match Url.parse text with
  | .error _ => .error .unreadable
  | .ok url =>
      let target := ofUrl url
      if isUsable target.url then .ok target else .error (.unusable target.url.text)

def requestUrl (target : Target) : String := ({ target.url with fragment := none } : Url).text

def lostMessage (target : Target) : String :=
  "error sending request for url (" ++ target.url.text ++ ")"

end Target

def basicAuthorization (username password : String) : String :=
  "Basic " ++ Codec.Base64.encode (Utf8.encode (username ++ ":" ++ password))

def bearerAuthorization (token : String) : String := "Bearer " ++ token

/-- Controls cannot stand in a header, except the tab. -/
def isHeaderValue (value : String) : Bool :=
  value.toList.all fun char => (0x20 ≤ char.toNat && char.toNat != 0x7F) || char == '\t'

end FieldPost.Http
