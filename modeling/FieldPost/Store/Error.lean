import FieldPost.Instance

/-!
Why the tables could not be read or changed. A row is read column by column, so a
text that does not stand for a value names its column.
-/

namespace FieldPost

inductive DatabaseError
  | engine (detail : String)
  | conversion (column : Nat) (detail : String)
  | integerRange (value : Int)
  | io (path reason : String)
  | migration (version : Nat) (reason : String)
  | invalidTransition (id : Int) (before after : Status)
  | notFound (table : String) (id : Int)
  | lockPoisoned
deriving DecidableEq, Repr

def DatabaseError.message : DatabaseError → String
  | .engine detail => "SQLite error: " ++ detail
  | .conversion column detail =>
      "SQLite error: Conversion error from type Text at index: " ++ toString column ++ ", " ++
        detail
  | .integerRange value =>
      "SQLite error: Integer " ++ toString value ++ " out of range at index 0"
  | .io path reason => "IO error for path '" ++ path ++ "': " ++ reason
  | .migration version reason =>
      "Migration failed at version " ++ toString version ++ ": " ++ reason
  | .invalidTransition id before after =>
      "Instance " ++ toString id ++ " cannot move from '" ++ before.text ++ "' to '" ++
        after.text ++ "'"
  | .notFound table id => "No " ++ table ++ " record with id " ++ toString id
  | .lockPoisoned => "Database lock poisoned"

inductive StoreError
  | database (error : DatabaseError)
  | backend (detail : String)
deriving DecidableEq, Repr

def StoreError.message : StoreError → String
  | .database error => "Database error: " ++ error.message
  | .backend detail => "Store backend error: " ++ detail

end FieldPost
