import FieldPost.Url
import FieldPost.Url.DomainName

/-!
Reading a URL without a base, after the URL standard. The text is trimmed, tabs and line ends
are dropped, and fragment, query, scheme, authority and path are cut off one after the other.
Only a host or a port can be wrong; every other part is brought into its normal spelling.
-/

namespace FieldPost.Url

open FieldPost.Text

inductive Problem
  | relative
  | emptyHost
  | invalidPort
  | invalidIpv4
  | invalidIpv6
  | invalidName
  | invalidCharacter
deriving DecidableEq, Repr

def Problem.message : Problem → String
  | .relative => "relative URL without a base"
  | .emptyHost => "empty host"
  | .invalidPort => "invalid port number"
  | .invalidIpv4 => "invalid IPv4 address"
  | .invalidIpv6 => "invalid IPv6 address"
  | .invalidName => "invalid international domain name"
  | .invalidCharacter => "invalid domain character"

def isControlOrSpace (char : Char) : Bool := char.toNat ≤ 0x20

def isTabOrLineEnd (char : Char) : Bool := char == '\t' || char == '\n' || char == '\r'

/-- The text without controls and spaces at its ends, and without tabs and line ends. -/
def clean (text : List Char) : List Char :=
  let trimmed := ((text.dropWhile isControlOrSpace).reverse.dropWhile isControlOrSpace).reverse
  trimmed.filter fun char => !isTabOrLineEnd char

/-- Cuts a part off at its first mark, which neither side keeps. -/
def cutPart (mark : Char) (text : List Char) : List Char × Option (List Char) :=
  match cutAtChar mark text with
  | none => (text, none)
  | some (before, after) => (before, some after)

def isSchemeChar (char : Char) : Bool := char.isAlphanum || "+-.".toList.contains char

/-- The scheme in lower case, and what follows its colon. -/
def takeScheme (text : List Char) : Option (List Char × List Char) :=
  match text.head? with
  | none => none
  | some first =>
      if first.isAlpha then
        match text.dropWhile isSchemeChar with
        | ':' :: rest => some ((text.takeWhile isSchemeChar).map Char.toLower, rest)
        | _ => none
      else none

def isSlash (kind : Kind) (char : Char) : Bool :=
  char == '/' || (kind != .other && char == '\\')

def readBracketed (text : List Char) : Except Problem Host :=
  if text.getLast? = some ']' then
    match Address.readIpv6 text.dropLast with
    | some pieces => .ok (.ipv6 pieces)
    | none => .error .invalidIpv6
  else .error .invalidIpv6

/-- A host on the network or of a file: a domain name or a numeric address. -/
def readHost (text : List Char) : Except Problem Host :=
  match text with
  | '[' :: rest => readBracketed rest
  | text =>
      match (Utf8.decode? (Percent.decode (Utf8.encodeChars text))).bind
          (fun decoded => DomainName.toAscii? decoded.toList) with
      | none => .error .invalidName
      | some name =>
          if name.isEmpty then .error .emptyHost
          else if Address.endsInNumber name then
            match Address.readIpv4 name with
            | some address => .ok (.ipv4 address)
            | none => .error .invalidIpv4
          else .ok (.name name)

/-- The characters that a host of any other scheme cannot have. -/
def isForbiddenInHost (char : Char) : Bool :=
  char == '\x00' || " #/:<>?@[\\]^|".toList.contains char

/-- A host of any other scheme, kept as it is. -/
def readOpaqueHost (text : List Char) : Except Problem Host :=
  match text with
  | '[' :: rest => readBracketed rest
  | [] => .ok .empty
  | text =>
      if text.any isForbiddenInHost then .error .invalidCharacter
      else .ok (.name (Percent.encode Percent.inControl text))

/-- The host up to the first colon outside brackets, and what follows. -/
def splitPort : (bracketed : Bool) → List Char → List Char × List Char
  | _, [] => ([], [])
  | bracketed, char :: rest =>
      if char = ':' ∧ bracketed = false then ([], char :: rest)
      else
        let inside := if char = '[' then true else if char = ']' then false else bracketed
        let sides := splitPort inside rest
        (char :: sides.1, sides.2)

def readPort (scheme : List Char) (text : List Char) : Except Problem (Option Nat) :=
  match text with
  | [] => .ok none
  | _ :: digits =>
      if digits.all Address.isDigit then
        let port := digits.foldl (fun value char => value * 10 + (char.toNat - '0'.toNat)) 0
        if 65535 < port then .error .invalidPort
        else if digits.isEmpty || defaultPort? scheme = some port then .ok none
        else .ok (some port)
      else .error .invalidPort

/-- User name and password before the last at sign, and the host and port after it. -/
def splitUser (text : List Char) : Option (List Char) × List Char :=
  if text.contains '@' then
    let after := (text.reverse.takeWhile (· != '@')).reverse
    (some (text.take (text.length - after.length - 1)), after)
  else (none, text)

def readAuthority (kind : Kind) (scheme : List Char) (text : List Char) :
    Except Problem Authority := do
  let (user, hostPort) := splitUser text
  let user := user.getD []
  if text.contains '@' && hostPort.isEmpty && user.isEmpty then .error .emptyHost
  let (username, password) := cutPart ':' user
  let (hostText, portText) := splitPort false hostPort
  if kind = .network ∧ hostText.isEmpty then .error .emptyHost
  let host ← if kind = .other then readOpaqueHost hostText else readHost hostText
  if host = .empty ∧ !portText.isEmpty then .error .emptyHost
  let port ← readPort scheme portText
  let authority : Authority :=
    { username := Percent.encode Percent.inUserinfo username
      password := Percent.encode Percent.inUserinfo (password.getD [])
      host, port }
  if host = .empty ∧ !authority.userText.isEmpty then .error .emptyHost
  .ok authority

/-- Spellings of the segment for the same place, and for the place above. -/
def isHere (segment : List Char) : Bool :=
  let lower := segment.map Char.toLower
  lower == ['.'] || lower == "%2e".toList

def isAbove (segment : List Char) : Bool :=
  let lower := segment.map Char.toLower
  [['.', '.'], ".%2e".toList, "%2e.".toList, "%2e%2e".toList].contains lower

/-- A letter and a colon or bar, as in the path of a file on a lettered drive. -/
def isDrive (segment : List Char) : Bool :=
  match segment with
  | [letter, mark] => letter.isAlpha && (mark == ':' || mark == '|')
  | _ => false

/-- A path loses its last segment, but a file never its drive. -/
def shorten (kind : Kind) (path : List (List Char)) : List (List Char) :=
  match kind, path with
  | .file, [only] => if isDrive only then [only] else []
  | _, path => path.dropLast

/-- One more segment of a path, the first of a file perhaps a drive. -/
def extend (kind : Kind) (path : List (List Char)) (segment : List Char) : List (List Char) :=
  if kind == .file && path.isEmpty && isDrive segment then
    [segment.take 1 ++ [':']]
  else path ++ [segment]

/-- Segments in turn: those for the same place are dropped, those for the place above shorten
the path, and either leaves an empty segment at the end. -/
def resolve (kind : Kind) : (path : List (List Char)) → List (List Char) → List (List Char)
  | path, [] => path
  | path, [last] =>
      if isAbove last then shorten kind path ++ [[]]
      else if isHere last then path ++ [[]]
      else extend kind path last
  | path, segment :: rest =>
      if isAbove segment then resolve kind (shorten kind path) rest
      else if isHere segment then resolve kind path rest
      else resolve kind (extend kind path segment) rest

def pieces (kind : Kind) (text : List Char) : List (List Char) :=
  splitOnChar '/' (text.map fun char => if isSlash kind char then '/' else char)

def encodePieces (kind : Kind) (text : List Char) : List (List Char) :=
  (pieces kind text).map (Percent.encode Percent.inPath)

/-- Empty segments at the beginning of the path of a file are dropped. -/
def dropEmpty : List (List Char) → List (List Char)
  | [] :: second :: rest => dropEmpty (second :: rest)
  | path => path

/-- The path of a network or file URL, which always has a segment. -/
def readPath (kind : Kind) (text : List Char) : UrlPath :=
  let rest := match text with
    | [] => []
    | char :: rest => if isSlash kind char then rest else char :: rest
  let path := resolve kind [] (encodePieces kind rest)
  .segments (if kind = .file then dropEmpty path else path)

/-- The path after an authority of any other scheme, which may be missing. -/
def readOtherPath (text : List Char) : UrlPath :=
  match text with
  | [] => .segments []
  | _ :: rest => .segments (resolve .other [] (encodePieces .other rest))

/-- Authority and path of a file. A drive is no host, and the own machine has no name. -/
def readFileParts (text : List Char) : Except Problem (Authority × UrlPath) :=
  match text with
  | first :: second :: rest =>
      if isSlash .file first && isSlash .file second then
        let hostText := rest.takeWhile fun char => !isSlash .file char
        if hostText.isEmpty || isDrive hostText then .ok (⟨[], [], .empty, none⟩, readPath .file rest)
        else do
          let host ← readHost hostText
          let host := if host = .name "localhost".toList then .empty else host
          .ok (⟨[], [], host, none⟩, readPath .file (rest.drop hostText.length))
      else .ok (⟨[], [], .empty, none⟩, readPath .file text)
  | text => .ok (⟨[], [], .empty, none⟩, readPath .file text)

/-- Authority and path of a URL, which its scheme tells apart. -/
def readParts (scheme : List Char) (text : List Char) :
    Except Problem (Option Authority × UrlPath) :=
  match kindOf scheme with
  | .network => do
      let rest := text.dropWhile (isSlash .network)
      let authorityText := rest.takeWhile fun char => !isSlash .network char
      let authority ← readAuthority .network scheme authorityText
      .ok (some authority, readPath .network (rest.drop authorityText.length))
  | .file => (readFileParts text).map fun parts => (some parts.1, parts.2)
  | .other =>
      match text with
      | '/' :: '/' :: rest => do
          let authorityText := rest.takeWhile (· != '/')
          let authority ← readAuthority .other scheme authorityText
          .ok (some authority, readOtherPath (rest.drop authorityText.length))
      | '/' :: rest => .ok (none, readOtherPath ('/' :: rest))
      | text => .ok (none, .opaqueText (Percent.encode Percent.inControl text))

def mustEncodeInQuery (scheme : List Char) : Char → Bool :=
  if kindOf scheme = .other then Percent.inQuery else Percent.inSpecialQuery

def parse (text : String) : Except Problem Url := do
  let (body, fragment) := cutPart '#' (clean text.toList)
  let (body, query) := cutPart '?' body
  match takeScheme body with
  | none => .error .relative
  | some (scheme, rest) =>
      let (authority, path) ← readParts scheme rest
      .ok
        { scheme, authority, path
          query := query.map (Percent.encode (mustEncodeInQuery scheme))
          fragment := fragment.map (Percent.encode Percent.inFragment) }

end FieldPost.Url
