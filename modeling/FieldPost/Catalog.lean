/-!
A database as its catalog shows it: relations with their columns and rows, indexes, and the
ledger of the schema versions that were reached. Statements change the catalog or fail and
change nothing. Names are compared without regard to the case of letters.
-/

namespace FieldPost

inductive Cell
  | null
  | whole (value : Int)
  | text (value : String)
deriving DecidableEq, Repr

/-- A table with named columns; every row has a cell for each of them. -/
structure Relation where
  name : String
  columns : List String
  rows : List (List Cell) := []
deriving DecidableEq, Repr

structure Index where
  name : String
  relation : String
  columns : List String
deriving DecidableEq, Repr

/-- Without a ledger no version was ever recorded. -/
structure Catalog where
  relations : List Relation := []
  indexes : List Index := []
  ledger : Option (List (Int × String)) := none
deriving DecidableEq, Repr

/-- Equal but for the case of letters. -/
def sameName (left right : String) : Bool :=
  left.toList.map Char.toLower == right.toList.map Char.toLower

namespace Relation

def hasColumn (relation : Relation) (name : String) : Bool :=
  relation.columns.any (sameName name)

/-- One more column, empty in every row. -/
def addColumn (relation : Relation) (name : String) : Relation :=
  { relation with
    columns := relation.columns ++ [name]
    rows := relation.rows.map fun row => row ++ [.null] }

end Relation

namespace Catalog

def relation? (catalog : Catalog) (name : String) : Option Relation :=
  catalog.relations.find? fun relation => sameName relation.name name

def hasIndex (catalog : Catalog) (name : String) : Bool :=
  catalog.indexes.any fun index => sameName index.name name

def columnExists (catalog : Catalog) (relation column : String) : Bool :=
  match catalog.relation? relation with
  | some found => found.columns.contains column
  | none => false

def modify (catalog : Catalog) (name : String) (change : Relation → Relation) : Catalog :=
  { catalog with
    relations := catalog.relations.map fun relation =>
      if sameName relation.name name then change relation else relation }

end Catalog

/-- The statements that schemas are made with. Creating what is there already does nothing;
adding a column that is there already fails. -/
inductive Statement
  | createRelation (name : String) (columns : List String)
  | createIndex (name relation : String) (columns : List String)
  | addColumn (relation column : String)
deriving DecidableEq, Repr

namespace Statement

def createRelationIn (catalog : Catalog) (name : String) (columns : List String) : Catalog :=
  match catalog.relation? name with
  | some _ => catalog
  | none => { catalog with relations := catalog.relations ++ [⟨name, columns, []⟩] }

def createIndexIn (catalog : Catalog) (name relation : String) (columns : List String) :
    Except String Catalog :=
  match catalog.relation? relation with
  | none => .error ("no such table: " ++ relation)
  | some found =>
      if catalog.hasIndex name then .ok catalog
      else match columns.find? fun column => !found.hasColumn column with
        | some missing => .error ("no such column: " ++ missing)
        | none => .ok { catalog with indexes := catalog.indexes ++ [⟨name, relation, columns⟩] }

def addColumnIn (catalog : Catalog) (relation column : String) : Except String Catalog :=
  match catalog.relation? relation with
  | none => .error ("no such table: " ++ relation)
  | some found =>
      if found.hasColumn column then .error ("duplicate column name: " ++ column)
      else .ok (catalog.modify relation fun relation => relation.addColumn column)

def run (catalog : Catalog) : Statement → Except String Catalog
  | .createRelation name columns => .ok (createRelationIn catalog name columns)
  | .createIndex name relation columns => createIndexIn catalog name relation columns
  | .addColumn relation column => addColumnIn catalog relation column

end Statement

end FieldPost
