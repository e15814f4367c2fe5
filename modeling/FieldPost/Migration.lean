import FieldPost.Catalog
import FieldPost.Store.Error

/-!
Bringing a database to the present schema. Every migration has a version; those above the
greatest recorded one are applied in order, each statement by itself, and then recorded. A
failing statement ends the run and leaves what came before it. A run may also be cut off between
any two of its actions.
-/

namespace FieldPost

/-- What a migration does. A column that is already there, spelled the same, is not added. -/
inductive MigrationWork
  | statements (statements : List Statement)
  | missingColumn (relation column : String)
deriving DecidableEq, Repr

structure Migration where
  version : Nat
  description : String
  work : MigrationWork
deriving DecidableEq, Repr

namespace Migration

def formColumns : List String :=
  ["id", "form_id", "version", "display_name", "form_file_path", "form_media_path", "auto_send",
   "date_added"]

def instanceColumns : List String :=
  ["id", "display_name", "form_id", "form_version", "status", "instance_path",
   "submission_uri", "last_status_change"]

def createForms : List Statement :=
  [.createRelation "forms" formColumns,
   .createIndex "idx_forms_form_id" "forms" ["form_id", "version"]]

def createInstances : List Statement :=
  [.createRelation "instances" instanceColumns,
   .createIndex "idx_instances_status" "instances" ["status"],
   .createIndex "idx_instances_form_id" "instances" ["form_id"]]

def all : List Migration :=
  [⟨1, "create_forms_table", .statements createForms⟩,
   ⟨2, "create_instances_table", .statements createInstances⟩,
   ⟨3, "add_auto_delete_to_forms", .missingColumn "forms" "auto_delete"⟩]

inductive Action
  | openLedger
  | apply (version : Nat) (statement : Statement)
  | complete (version : Nat) (relation column : String)
  | record (version : Nat) (description : String)
deriving DecidableEq, Repr

def actions (migration : Migration) : List Action :=
  (match migration.work with
    | .statements statements => statements.map (.apply migration.version)
    | .missingColumn relation column => [.complete migration.version relation column]) ++
  [.record migration.version migration.description]

def pending (current : Nat) : List Migration := all.filter fun migration => current < migration.version

/-- Runs a statement for a migration, which is named when it fails. -/
def applyStatement (version : Nat) (statement : Statement) (catalog : Catalog) :
    Except DatabaseError Catalog :=
  (statement.run catalog).mapError (DatabaseError.migration version)

def Action.run (catalog : Catalog) : Action → Except DatabaseError Catalog
  | .openLedger => .ok { catalog with ledger := some (catalog.ledger.getD []) }
  | .apply version statement => applyStatement version statement catalog
  | .complete version relation column =>
      if catalog.columnExists relation column then .ok catalog
      else applyStatement version (.addColumn relation column) catalog
  | .record version description =>
      .ok { catalog with ledger := some (catalog.ledger.getD [] ++ [((version : Int), description)]) }

/-- Actions one after the other up to the first that fails. -/
def perform (catalog : Catalog) : List Action → Catalog × Except DatabaseError Unit
  | [] => (catalog, .ok ())
  | action :: rest =>
      match action.run catalog with
      | .ok changed => perform changed rest
      | .error error => (catalog, .error error)

def versionLimit : Int := 0xFFFFFFFF

def greatest : List (Int × String) → Int
  | [] => 0
  | [entry] => entry.1
  | entry :: rest => max entry.1 (greatest rest)

def currentVersion (catalog : Catalog) : Except DatabaseError Nat :=
  let version := greatest (catalog.ledger.getD [])
  if 0 ≤ version ∧ version ≤ versionLimit then .ok version.toNat
  else .error (.integerRange version)

/-- The actions of a run on a catalog with a ledger. -/
def plan (catalog : Catalog) : Except DatabaseError (List Action) :=
  (currentVersion catalog).map fun current => (pending current).flatMap actions

def runOpened (limit : Nat) (catalog : Catalog) : Catalog × Except DatabaseError Unit :=
  match plan catalog with
  | .error error => (catalog, .error error)
  | .ok actions => perform catalog (actions.take limit)

/-- A run that is cut off after so many actions. -/
def runFor (limit : Nat) (catalog : Catalog) : Catalog × Except DatabaseError Unit :=
  match limit with
  | 0 => (catalog, .ok ())
  | limit + 1 =>
      let opened := perform catalog [.openLedger]
      match opened.2 with
      | .ok () => runOpened limit opened.1
      | .error error => (opened.1, .error error)

/-- The number of actions after the first that a run has at most. -/
def longest : Nat := (all.flatMap actions).length

def run (catalog : Catalog) : Catalog × Except DatabaseError Unit := runFor (longest + 1) catalog

/-- So many runs, each whatever became of the one before. -/
def runs (catalog : Catalog) : Nat → Catalog × List (Except DatabaseError Unit)
  | 0 => (catalog, [])
  | count + 1 =>
      let first := run catalog
      let rest := runs first.1 count
      (rest.1, first.2 :: rest.2)

end Migration

end FieldPost
