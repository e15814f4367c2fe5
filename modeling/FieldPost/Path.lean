import FieldPost.Text.Cut

/-!
Paths as texts with slashes. What a path names is its list of steps: repeated and
trailing slashes and dots that stand for the same directory are not steps, except
a dot at the very beginning. Two spellings with equal steps are the same path. The
parent and the last name of a path are cut out of its text as it was written. Paths
whose bytes are not UTF-8 have no text here and are left out.
-/

namespace FieldPost.Path

open FieldPost.Text

inductive Step
  | root
  | here
  | up
  | name (text : List Char)
deriving DecidableEq, Repr

def isRooted (path : List Char) : Bool := path.head? == some '/'

/-- The pieces between slashes. A rooted path has an empty first piece. -/
def pieces (path : List Char) : List (List Char) := splitOnChar '/' path

/-- Whether the piece at this position is a step of its own. -/
def isStep (rooted : Bool) (position : Nat) (piece : List Char) : Bool :=
  if piece.isEmpty then false
  else if piece = ['.'] then !rooted && position == 0
  else true

def stepOfPiece (piece : List Char) : Step :=
  if piece = ['.'] then .here else if piece = ['.', '.'] then .up else .name piece

/-- The positions of the pieces that are steps, with the pieces. -/
def stepPieces (path : List Char) : List (List Char × Nat) :=
  (pieces path).zipIdx.filter fun entry => isStep (isRooted path) entry.2 entry.1

def steps (path : String) : List Step :=
  let chars := path.toList
  (if isRooted chars then [.root] else []) ++
    (stepPieces chars).map fun entry => stepOfPiece entry.1

def same (left right : String) : Bool := steps left == steps right

/-- The path without its last step. Neither the empty path nor the root has a parent. -/
def parent? (path : String) : Option String :=
  let chars := path.toList
  match (stepPieces chars).reverse with
  | [] => none
  | [_] => some (if isRooted chars then "/" else "")
  | _ :: (_, position) :: _ =>
      some (String.ofList (['/'].intercalate ((pieces chars).take (position + 1))))

/-- The last step, when it is a name. -/
def fileName? (path : String) : Option String :=
  match (steps path).getLast? with
  | some (.name text) => some (String.ofList text)
  | _ => none

/-- What follows the last dot of a file name. A dot at the beginning starts no extension. -/
def extension? (fileName : String) : Option String :=
  match (splitOnChar '.' fileName.toList).reverse with
  | last :: before :: more =>
      if more.isEmpty && before.isEmpty then none else some (String.ofList last)
  | _ => none

/-- The path of an entry of a directory. -/
def join (directory name : String) : String :=
  if directory.isEmpty then name
  else if directory.toList.getLast? = some '/' then directory ++ name
  else directory ++ "/" ++ name

end FieldPost.Path
