import FieldPost.Path
import FieldPost.Text.Utf8

/-!
Files and directories as a finite map from locations, the lists of names that lead to
them from the root. Paths are followed step by step through directories that exist, as an
operating system does, and fail with its causes. Removing a directory removes every
location below it and nothing else. Names are texts: those that are not UTF-8 are left out, and
so are links and special files.
-/

namespace FieldPost

open FieldPost.Text

/-- The names from the root to a file or directory. -/
abbrev Location := List String

/-- A file that is locked is there, but nobody here may read or write it. -/
inductive Node
  | directory (writable : Bool)
  | file (content : Bytes)
  | lockedFile
deriving DecidableEq, Repr

inductive OsProblem
  | notFound
  | notDirectory
  | isDirectory
  | alreadyExists
  | denied
  | nulInName
  | notText
deriving DecidableEq, Repr

def OsProblem.message : OsProblem → String
  | .notFound => "No such file or directory (os error 2)"
  | .notDirectory => "Not a directory (os error 20)"
  | .isDirectory => "Is a directory (os error 21)"
  | .alreadyExists => "File exists (os error 17)"
  | .denied => "Permission denied (os error 13)"
  | .nulInName => "file name contained an unexpected NUL byte"
  | .notText => "stream did not contain valid UTF-8"

/-- Relative paths start at `current`. The root is a directory without being listed. -/
structure FileTree where
  current : Location := []
  nodes : List (Location × Node) := []
deriving Repr

namespace FileTree

def find? (tree : FileTree) (location : Location) : Option Node :=
  if location.isEmpty then some (.directory true) else tree.nodes.lookup location

def put (tree : FileTree) (location : Location) (node : Node) : FileTree :=
  { tree with nodes := tree.nodes.filter (·.1 != location) ++ [(location, node)] }

def prune (tree : FileTree) (location : Location) : FileTree :=
  { tree with nodes := tree.nodes.filter fun entry => !location.isPrefixOf entry.1 }

def follow (location : Location) : Path.Step → Location
  | .root => []
  | .here => location
  | .up => location.dropLast
  | .name text => location ++ [String.ofList text]

/-- Follows steps, each from a directory that exists. -/
def walk (tree : FileTree) : Location → List Path.Step → Except OsProblem Location
  | location, [] => .ok location
  | location, step :: rest =>
      match tree.find? location with
      | none => .error .notFound
      | some (.directory _) => walk tree (follow location step) rest
      | some _ => .error .notDirectory

/-- A path that ends in a slash or a dot names directories only. -/
def asksDirectory (path : String) : Bool :=
  match (Path.pieces path.toList).getLast? with
  | some piece => piece.isEmpty || piece == ['.'] || piece == ['.', '.']
  | none => false

/-- The location of a path, which need not exist in its directory. -/
def locate (tree : FileTree) (path : String) : Except OsProblem Location :=
  if path.isEmpty then .error .notFound
  else if path.toList.contains '\x00' then .error .nulInName
  else tree.walk tree.current (Path.steps path)

def stat (tree : FileTree) (path : String) : Except OsProblem (Location × Node) := do
  let location ← tree.locate path
  match tree.find? location with
  | none => .error .notFound
  | some node =>
      match node with
      | .directory _ => .ok (location, node)
      | _ => if asksDirectory path then .error .notDirectory else .ok (location, node)

def exists? (tree : FileTree) (path : String) : Bool :=
  match tree.stat path with
  | .ok _ => true
  | .error _ => false

def isFile (tree : FileTree) (path : String) : Bool :=
  match tree.stat path with
  | .ok (_, .directory _) => false
  | .ok _ => true
  | .error _ => false

def isDirectory (tree : FileTree) (path : String) : Bool :=
  match tree.stat path with
  | .ok (_, .directory _) => true
  | _ => false

def isWritableDirectory (tree : FileTree) (path : String) : Bool :=
  match tree.stat path with
  | .ok (_, .directory writable) => writable
  | _ => false

def readFile (tree : FileTree) (path : String) : Except OsProblem Bytes := do
  match ← tree.stat path with
  | (_, .file content) => .ok content
  | (_, .lockedFile) => .error .denied
  | (_, .directory _) => .error .isDirectory

def readText (tree : FileTree) (path : String) : Except OsProblem String := do
  match Utf8.decode? (← tree.readFile path) with
  | some text => .ok text
  | none => .error .notText

/-- The names of a directory's own entries, in no particular order. -/
def entriesAt (tree : FileTree) (location : Location) : List String :=
  tree.nodes.filterMap fun entry =>
    if entry.1.dropLast = location then entry.1.getLast? else none

def readDirectory (tree : FileTree) (path : String) : Except OsProblem (List String) := do
  match ← tree.stat path with
  | (location, .directory _) => .ok (tree.entriesAt location)
  | _ => .error .notDirectory

/-- Makes the missing directories on the way along `steps`. -/
def makeAlong (tree : FileTree) : Location → List Path.Step → Except OsProblem FileTree
  | _, [] => .ok tree
  | location, step :: rest =>
      let next := follow location step
      match tree.find? next with
      | some (.directory _) => makeAlong tree next rest
      | some _ => .error (if rest.isEmpty then .alreadyExists else .notDirectory)
      | none => makeAlong (tree.put next (.directory true)) next rest

def makeDirectories (tree : FileTree) (path : String) : Except OsProblem FileTree :=
  if path.toList.contains '\x00' then .error .nulInName
  else tree.makeAlong tree.current (Path.steps path)

def writeFile (tree : FileTree) (path : String) (content : Bytes) : Except OsProblem FileTree := do
  let location ← tree.locate path
  match tree.find? location.dropLast, tree.find? location with
  | some (.directory _), some (.directory _) => .error .isDirectory
  | some (.directory _), some .lockedFile => .error .denied
  | some (.directory _), _ => .ok (tree.put location (.file content))
  | some _, _ => .error .notDirectory
  | none, _ => .error .notFound

def withDirectory (tree : FileTree) (path : String) : FileTree :=
  (tree.makeDirectories path).toOption.getD tree

/-- Writes a file and makes the directories above it, as far as that can be done. -/
def withFile (tree : FileTree) (path : String) (content : Bytes) : FileTree :=
  let roomy := tree.withDirectory ((Path.parent? path).getD "")
  (roomy.writeFile path content).toOption.getD roomy

/-- Removes a file; nothing happens to a directory. -/
def removeFile (tree : FileTree) (path : String) : Except OsProblem FileTree := do
  match ← tree.stat path with
  | (_, .directory _) => .error .isDirectory
  | (location, _) => .ok (tree.prune location)

/-- Removes a directory and everything below it. Of the root only what is below it goes, and
a file stays. -/
def removeDirectory (tree : FileTree) (path : String) : FileTree :=
  match tree.stat path with
  | .ok (location, .directory _) => tree.prune location
  | _ => tree

end FileTree

end FieldPost
