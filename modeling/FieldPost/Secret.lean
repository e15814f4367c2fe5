import FieldPost.FileTree
import FieldPost.Text.Blank

/-!
Secrets from three places: written down directly, in a file, or in an environment
variable. The first place that is named counts, whatever it holds; what is read from a
file or a variable is trimmed.
-/

namespace FieldPost

open FieldPost.Text

structure Environment where
  home : Option String
  values : List (String × Bytes)

inductive SecretError
  | noSource
  | unreadableFile (path reason : String)
  | variableNotSet (name : String)
  | variableNotText (name : String)
deriving DecidableEq, Repr

def SecretError.message : SecretError → String
  | .noSource =>
      "No secret source provided (need one of: direct value, file path, or env var name)"
  | .unreadableFile path reason =>
      "Failed to read secret from file '" ++ path ++ "': " ++ reason
  | .variableNotSet name => "Environment variable '" ++ name ++ "' not set"
  | .variableNotText name => "Environment variable '" ++ name ++ "' contains invalid UTF-8"

/-- Where a secret may come from. An empty text names no place. -/
structure SecretSource where
  direct : Option String := none
  file : Option String := none
  variableName : Option String := none
deriving DecidableEq, Repr

namespace Secret

/-- A leading tilde that stands alone or before a slash is the home directory. -/
def expandHome (environment : Environment) (path : String) : String :=
  match environment.home, path.toList with
  | some home, ['~'] => home
  | some home, '~' :: '/' :: rest => home ++ "/" ++ String.ofList rest
  | _, _ => path

def ofFile (environment : Environment) (files : FileTree) (path : String) :
    Except SecretError String :=
  let expanded := expandHome environment path
  match files.readText expanded with
  | .ok content => .ok (trimmed content)
  | .error problem => .error (.unreadableFile expanded problem.message)

def ofVariable (environment : Environment) (name : String) : Except SecretError String :=
  match environment.values.lookup name with
  | none => .error (.variableNotSet name)
  | some value =>
      match Utf8.decode? value with
      | some text => .ok (trimmed text)
      | none => .error (.variableNotText name)

def named (text : Option String) : Option String := text.filter fun name => !name.isEmpty

def resolve (environment : Environment) (files : FileTree) (source : SecretSource) :
    Except SecretError String :=
  match named source.direct, named source.file, named source.variableName with
  | some value, _, _ => .ok value
  | none, some path, _ => ofFile environment files path
  | none, none, some name => ofVariable environment name
  | none, none, none => .error .noSource

/-- The secret, or nothing when no place is named. -/
def resolve? (environment : Environment) (files : FileTree) (source : SecretSource) :
    Except SecretError (Option String) :=
  match resolve environment files source with
  | .ok secret => .ok (some secret)
  | .error .noSource => .ok none
  | .error error => .error error

end Secret

end FieldPost
