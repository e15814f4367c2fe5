import FieldPost.Url.Address
import FieldPost.Url.Percent

/-!
URLs in their parts, every part in its normal spelling, and the text that they are written
as. An authority may be missing altogether, as in a mail address, or be there with an empty
host, as in the URL of a local file.
-/

namespace FieldPost

inductive Host
  | empty
  | name (text : List Char)
  | ipv4 (address : Nat)
  | ipv6 (pieces : List Nat)
deriving DecidableEq, Repr

def Host.text : Host → List Char
  | .empty => []
  | .name text => text
  | .ipv4 address => (Address.ipv4Text address).toList
  | .ipv6 pieces => '[' :: (Address.ipv6Text pieces).toList ++ [']']

structure Authority where
  username : List Char := []
  password : List Char := []
  host : Host
  port : Option Nat := none
deriving DecidableEq, Repr

namespace Authority

def userText (authority : Authority) : List Char :=
  if authority.username.isEmpty && authority.password.isEmpty then []
  else
    authority.username ++
      (if authority.password.isEmpty then [] else ':' :: authority.password) ++ ['@']

def portText (authority : Authority) : List Char :=
  match authority.port with
  | none => []
  | some port => ':' :: (toString port).toList

def text (authority : Authority) : List Char :=
  authority.userText ++ authority.host.text ++ authority.portText

end Authority

/-- A path that is one piece of text, or segments each of which follows a slash. -/
inductive UrlPath
  | opaqueText (text : List Char)
  | segments (items : List (List Char))
deriving DecidableEq, Repr

def UrlPath.text : UrlPath → List Char
  | .opaqueText text => text
  | .segments items => items.flatMap ('/' :: ·)

structure Url where
  scheme : List Char
  authority : Option Authority
  path : UrlPath
  query : Option (List Char) := none
  fragment : Option (List Char) := none
deriving DecidableEq, Repr

namespace Url

/-- The authority with its two slashes. Without one, a path that begins with two slashes is kept
apart from it by a dot segment. -/
def authorityText (url : Url) : List Char :=
  match url.authority with
  | some authority => '/' :: '/' :: authority.text
  | none => if "//".toList.isPrefixOf url.path.text then ['/', '.'] else []

def queryText (url : Url) : List Char :=
  match url.query with
  | none => []
  | some query => '?' :: query

def fragmentText (url : Url) : List Char :=
  match url.fragment with
  | none => []
  | some fragment => '#' :: fragment

def chars (url : Url) : List Char :=
  url.scheme ++ ':' :: url.authorityText ++ url.path.text ++ url.queryText ++ url.fragmentText

def text (url : Url) : String := String.ofList url.chars

def hostText? (url : Url) : Option String :=
  match url.authority with
  | none => none
  | some authority =>
      if authority.host = .empty then none else some (String.ofList authority.host.text)

/-- The schemes whose URLs name a host on the network and a path on it, with their ports. -/
def networkSchemes : List (List Char × Nat) :=
  [("http".toList, 80), ("https".toList, 443), ("ws".toList, 80), ("wss".toList, 443),
   ("ftp".toList, 21)]

def defaultPort? (scheme : List Char) : Option Nat := networkSchemes.lookup scheme

/-- How the rest of a URL is read hangs on its scheme. -/
inductive Kind
  | network
  | file
  | other
deriving DecidableEq, Repr

def kindOf (scheme : List Char) : Kind :=
  if (defaultPort? scheme).isSome then .network
  else if scheme = "file".toList then .file
  else .other

end Url

end FieldPost
