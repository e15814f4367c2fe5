import FieldPost.Database
import FieldPost.Secret

/-!
Where a database lies. Opening makes the directories above its file that are missing, and the
file too; what the file held before is there again. A file that is no database is refused.
-/

namespace FieldPost.Database

open FieldPost.Text

/-- The place of the database below the home directory, when there is one. -/
def defaultPath (environment : Environment) : Option String :=
  environment.home.map fun home =>
    Path.join (Path.join (Path.join home ".formrelay") "data") "formrelay.db"

/-- The bytes that every database file begins with. -/
def signature : Bytes := Utf8.encode "SQLite format 3" ++ [0]

/-- Makes room for a file by making the directory it lies in. -/
def makeRoom (files : FileTree) (path : String) : Answer FileTree :=
  match Path.parent? path with
  | none => .ok files
  | some parent =>
      match files.makeDirectories parent with
      | .ok files => .ok files
      | .error problem => .error (.io parent problem.message)

/-- An empty database in a new file. -/
def create (files : FileTree) (path : String) : Answer (Database × FileTree) :=
  match files.writeFile path signature with
  | .ok files => .ok ({}, files)
  | .error problem => .error (.engine ("unable to open database file: " ++ problem.message))

/-- The database at a path, `held` being what its file holds if it is one. A database without a
path lies in no file. -/
def openAt (files : FileTree) (path : String) (held : Database) : Answer (Database × FileTree) := do
  let files ← makeRoom files path
  if path.isEmpty then .ok ({}, files)
  else match files.readFile path with
    | .error .notFound => create files path
    | .error problem => .error (.engine ("unable to open database file: " ++ problem.message))
    | .ok [] => create files path
    | .ok content =>
        if signature.isPrefixOf content then .ok ({ held with lockPoisoned := false }, files)
        else .error (.engine "file is not a database")

end FieldPost.Database
