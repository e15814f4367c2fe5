import FieldPost.Migration
import FieldPost.Proofs.Answers

/-!
What a change of the schema adds. Nothing that is there is ever taken away: relations keep their
columns and rows, with new columns behind them, and indexes and recorded versions stay. So what an
action made is there ever after, and the action does nothing when it comes again. When an action
fails is not said.
-/

namespace FieldPost

open FieldPost.Answers

theorem same_name_iff (left right : String) :
    sameName left right = true ↔ left.toList.map Char.toLower = right.toList.map Char.toLower :=
  beq_iff_eq

/-! ### What is never taken away -/

/-- The same relation, with columns added behind the ones it had. -/
structure Relation.Extends (before after : Relation) : Prop where
  name : after.name = before.name
  columns : before.columns <+: after.columns
  rows : List.Forall₂ (· <+: ·) before.rows after.rows

namespace Relation.Extends

variable {first second third : Relation}

theorem refl (relation : Relation) : relation.Extends relation where
  name := rfl
  columns := List.prefix_rfl
  rows := List.forall₂_same.mpr fun _ _ => List.prefix_rfl

theorem rows_trans {early between late : List (List Cell)}
    (longer : List.Forall₂ (· <+: ·) early between) (longest : List.Forall₂ (· <+: ·) between late) :
    List.Forall₂ (· <+: ·) early late := by
  induction longer generalizing late with
  | nil => exact longest
  | cons row _ induction =>
      cases longest with
      | cons further others => exact .cons (row.trans further) (induction others)

theorem trans (early : first.Extends second) (late : second.Extends third) :
    first.Extends third where
  name := late.name.trans early.name
  columns := early.columns.trans late.columns
  rows := rows_trans early.rows late.rows

theorem add_column (relation : Relation) (name : String) :
    relation.Extends (relation.addColumn name) where
  name := rfl
  columns := List.prefix_append _ _
  rows := List.forall₂_map_right_iff.mpr (List.forall₂_same.mpr fun _ _ => List.prefix_append _ _)

end Relation.Extends

namespace Catalog

theorem name_of_relation {catalog : Catalog} {name : String} {found : Relation}
    (known : catalog.relation? name = some found) : sameName found.name name = true := by
  unfold relation? at known
  have named := List.find?_some known
  exact named

theorem relation_modify (catalog : Catalog) (name other : String) (change : Relation → Relation)
    (named : ∀ relation, (change relation).name = relation.name) :
    (catalog.modify name change).relation? other =
      (catalog.relation? other).map fun relation =>
        if sameName relation.name name then change relation else relation := by
  unfold relation? modify
  rw [List.find?_map]
  congr 2
  funext relation
  dsimp only [Function.comp]
  split
  · rw [named]
  · rfl

/-- Every relation that is found is found again, with what it had; indexes and recorded versions
stay. -/
structure Grows (before after : Catalog) : Prop where
  relations : ∀ name found, before.relation? name = some found →
    ∃ later, after.relation? name = some later ∧ found.Extends later
  indexes : before.indexes <+: after.indexes
  ledger : ∀ recorded, before.ledger = some recorded →
    ∃ added, after.ledger = some (recorded ++ added)

namespace Grows

variable {first second third : Catalog}

theorem of_same_relations (relations : second.relations = first.relations)
    (indexes : first.indexes <+: second.indexes)
    (ledger : ∀ recorded, first.ledger = some recorded →
      ∃ added, second.ledger = some (recorded ++ added)) : first.Grows second where
  relations name found present := by
    refine ⟨found, ?_, .refl found⟩
    unfold relation? at present ⊢
    rw [relations]
    exact present
  indexes := indexes
  ledger := ledger

theorem refl (catalog : Catalog) : catalog.Grows catalog :=
  of_same_relations rfl List.prefix_rfl fun recorded known => ⟨[], by rw [known, List.append_nil]⟩

theorem trans (early : first.Grows second) (late : second.Grows third) : first.Grows third where
  relations name found present := by
    obtain ⟨between, still, longer⟩ := early.relations name found present
    obtain ⟨later, last, longest⟩ := late.relations name between still
    exact ⟨later, last, longer.trans longest⟩
  indexes := early.indexes.trans late.indexes
  ledger recorded known := by
    obtain ⟨added, between⟩ := early.ledger recorded known
    obtain ⟨more, last⟩ := late.ledger _ between
    exact ⟨added ++ more, by rw [last, List.append_assoc]⟩

theorem has_relation (grows : first.Grows second) {name : String}
    (present : (first.relation? name).isSome = true) : (second.relation? name).isSome = true := by
  obtain ⟨found, known⟩ := Option.isSome_iff_exists.mp present
  obtain ⟨later, still, _⟩ := grows.relations name found known
  rw [still]
  rfl

theorem has_index (grows : first.Grows second) {name : String}
    (present : first.hasIndex name = true) : second.hasIndex name = true := by
  obtain ⟨index, member, named⟩ := List.any_eq_true.mp present
  exact List.any_eq_true.mpr ⟨index, grows.indexes.subset member, named⟩

end Grows

theorem column_exists_iff (catalog : Catalog) (relation column : String) :
    catalog.columnExists relation column = true ↔
      ∃ found, catalog.relation? relation = some found ∧ column ∈ found.columns := by
  unfold columnExists
  cases catalog.relation? relation <;> simp

theorem Grows.column_exists {first second : Catalog} (grows : first.Grows second)
    {relation column : String} (present : first.columnExists relation column = true) :
    second.columnExists relation column = true := by
  rw [column_exists_iff] at present ⊢
  obtain ⟨found, known, member⟩ := present
  obtain ⟨later, still, longer⟩ := grows.relations relation found known
  exact ⟨later, still, longer.columns.subset member⟩

end Catalog

/-! ### Statements and actions -/

namespace Statement

/-- A catalog either has the relation already, or gets it behind all others. -/
theorem create_relation_cases (catalog : Catalog) (name : String) (columns : List String) :
    (∃ found, catalog.relation? name = some found ∧
      createRelationIn catalog name columns = catalog) ∨
    (catalog.relation? name = none ∧
      createRelationIn catalog name columns =
        { catalog with relations := catalog.relations ++ [⟨name, columns, []⟩] }) := by
  unfold createRelationIn
  cases known : catalog.relation? name with
  | some found => exact .inl ⟨found, rfl, rfl⟩
  | none => exact .inr ⟨rfl, rfl⟩

theorem create_relation_grows (catalog : Catalog) (name : String) (columns : List String) :
    catalog.Grows (createRelationIn catalog name columns) := by
  rcases create_relation_cases catalog name columns with ⟨_, _, same⟩ | ⟨_, created⟩
  · rw [same]
    exact .refl catalog
  · rw [created]
    constructor
    · intro other found present
      refine ⟨found, ?_, .refl found⟩
      unfold Catalog.relation? at present ⊢
      rw [List.find?_append, present]
      rfl
    · exact List.prefix_rfl
    · intro recorded known
      exact ⟨[], by rw [List.append_nil]; exact known⟩

theorem created_relation (catalog : Catalog) (name : String) (columns : List String) :
    ((createRelationIn catalog name columns).relation? name).isSome = true := by
  rcases create_relation_cases catalog name columns with ⟨found, known, same⟩ | ⟨missing, created⟩
  · rw [same, known]
    rfl
  · have itself : sameName name name = true := (same_name_iff name name).mpr rfl
    unfold Catalog.relation? at missing ⊢
    rw [created, List.find?_append, missing]
    simp [itself]

/-- An index that could be made is there, on a relation that was there before. -/
theorem create_index_of_ok {catalog after : Catalog} {name relation : String}
    {columns : List String} (made : createIndexIn catalog name relation columns = .ok after) :
    (catalog.relation? relation).isSome = true ∧ after.hasIndex name = true ∧
      after.relations = catalog.relations ∧ catalog.indexes <+: after.indexes ∧
      after.ledger = catalog.ledger := by
  unfold createIndexIn at made
  cases known : catalog.relation? relation with
  | none =>
      rw [known] at made
      cases made
  | some found =>
      simp only [known] at made
      split at made
      · rename_i there
        cases made
        exact ⟨rfl, there, rfl, List.prefix_rfl, rfl⟩
      · split at made
        · cases made
        · cases made
          have itself : sameName name name = true := (same_name_iff name name).mpr rfl
          refine ⟨rfl, ?_, rfl, List.prefix_append _ _, rfl⟩
          simp [Catalog.hasIndex, itself]

theorem create_index_again {catalog : Catalog} {name relation : String} {columns : List String}
    (known : (catalog.relation? relation).isSome = true)
    (there : catalog.hasIndex name = true) :
    createIndexIn catalog name relation columns = .ok catalog := by
  obtain ⟨found, present⟩ := Option.isSome_iff_exists.mp known
  unfold createIndexIn
  simp only [present, there, if_true]

theorem create_index_of_columns {catalog : Catalog} {name relation : String}
    {columns : List String} {found : Relation}
    (known : catalog.relation? relation = some found)
    (fits : ∀ column ∈ columns, found.hasColumn column = true) :
    ∃ after, createIndexIn catalog name relation columns = .ok after := by
  have complete : columns.find? (fun column => !found.hasColumn column) = none := by
    apply List.find?_eq_none.mpr
    intro column member
    rw [fits column member]
    exact Bool.false_ne_true
  unfold createIndexIn
  simp only [known, complete]
  split <;> exact ⟨_, rfl⟩

/-- A column that could be added stands behind the others of its relation. -/
theorem add_column_of_ok {catalog after : Catalog} {relation column : String}
    (added : addColumnIn catalog relation column = .ok after) :
    (catalog.relation? relation).isSome = true ∧
      after = catalog.modify relation fun found => found.addColumn column := by
  unfold addColumnIn at added
  cases known : catalog.relation? relation with
  | none =>
      rw [known] at added
      cases added
  | some found =>
      simp only [known] at added
      split at added
      · cases added
      · cases added
        exact ⟨rfl, rfl⟩

theorem relation_add_column (catalog : Catalog) (relation column other : String) :
    (catalog.modify relation fun found => found.addColumn column).relation? other =
      (catalog.relation? other).map fun found =>
        if sameName found.name relation then found.addColumn column else found :=
  Catalog.relation_modify catalog relation other _ fun _ => rfl

theorem add_column_grows (catalog : Catalog) (relation column : String) :
    catalog.Grows (catalog.modify relation fun found => found.addColumn column) where
  relations name found present := by
    rw [relation_add_column, present]
    refine ⟨_, rfl, ?_⟩
    dsimp only
    split
    · exact .add_column found column
    · exact .refl found
  indexes := List.prefix_rfl
  ledger recorded known := ⟨[], by rw [List.append_nil]; exact known⟩

/-- No statement takes anything away. -/
theorem grows_of_run {statement : Statement} {before after : Catalog}
    (ran : statement.run before = .ok after) : before.Grows after := by
  cases statement with
  | createRelation name columns =>
      cases ran
      exact create_relation_grows before name columns
  | createIndex name relation columns =>
      obtain ⟨_, _, relations, indexes, ledger⟩ := create_index_of_ok ran
      apply Catalog.Grows.of_same_relations relations indexes
      intro recorded known
      exact ⟨[], by rw [ledger, known, List.append_nil]⟩
  | addColumn relation column =>
      rw [(add_column_of_ok ran).2]
      exact add_column_grows before relation column

end Statement

namespace Migration

/-- What a migration does before its version is recorded. -/
def steps (migration : Migration) : List Action :=
  match migration.work with
  | .statements statements => statements.map (.apply migration.version)
  | .missingColumn relation column => [.complete migration.version relation column]

theorem actions_eq (migration : Migration) :
    actions migration = steps migration ++ [.record migration.version migration.description] := rfl

namespace Action

/-- What an action makes is there. -/
def Present (catalog : Catalog) : Action → Prop
  | .openLedger => catalog.ledger.isSome = true
  | .apply _ (.createRelation name _) => (catalog.relation? name).isSome = true
  | .apply _ (.createIndex name relation _) =>
      (catalog.relation? relation).isSome = true ∧ catalog.hasIndex name = true
  | .apply _ (.addColumn relation column) => catalog.columnExists relation column = true
  | .complete _ relation column => catalog.columnExists relation column = true
  | .record version _ => (version : Int) ∈ (catalog.ledger.getD []).map (·.1)

/-- Work on the schema that does nothing where what it makes is there. -/
def IsRepeatable : Action → Prop
  | .apply _ (.createRelation _ _) | .apply _ (.createIndex _ _ _) | .complete _ _ _ => True
  | .openLedger | .apply _ (.addColumn _ _) | .record _ _ => False

theorem grows_of_run {action : Action} {before after : Catalog}
    (ran : action.run before = .ok after) : before.Grows after := by
  cases action with
  | openLedger =>
      cases ran
      refine .of_same_relations rfl List.prefix_rfl ?_
      intro recorded known
      exact ⟨[], by rw [known, List.append_nil]; rfl⟩
  | apply version statement =>
      exact Statement.grows_of_run ((map_error_eq_ok_iff _ _ _).mp ran)
  | complete version relation column =>
      simp only [run] at ran
      split at ran
      · cases ran
        exact .refl before
      · exact Statement.grows_of_run ((map_error_eq_ok_iff _ _ _).mp ran)
  | record version description =>
      cases ran
      refine .of_same_relations rfl List.prefix_rfl ?_
      intro recorded known
      exact ⟨[((version : Int), description)], by rw [known]; rfl⟩

theorem present_of_added {before after : Catalog} {relation column : String}
    (added : Statement.addColumnIn before relation column = .ok after) :
    after.columnExists relation column = true := by
  obtain ⟨known, rfl⟩ := Statement.add_column_of_ok added
  obtain ⟨found, present⟩ := Option.isSome_iff_exists.mp known
  have named := Catalog.name_of_relation present
  rw [Catalog.column_exists_iff, Statement.relation_add_column, present]
  refine ⟨found.addColumn column, ?_, List.mem_append_right _ (List.mem_singleton.mpr rfl)⟩
  simp only [Option.map_some, named, if_true]

/-- What was done is there. -/
theorem present_of_run {action : Action} {before after : Catalog}
    (ran : action.run before = .ok after) : action.Present after := by
  cases action with
  | openLedger =>
      cases ran
      rfl
  | apply version statement =>
      have done := (map_error_eq_ok_iff _ _ _).mp ran
      cases statement with
      | createRelation name columns =>
          cases done
          exact Statement.created_relation before name columns
      | createIndex name relation columns =>
          obtain ⟨known, there, relations, _⟩ := Statement.create_index_of_ok done
          refine ⟨?_, there⟩
          unfold Catalog.relation? at known ⊢
          rw [relations]
          exact known
      | addColumn relation column => exact present_of_added done
  | complete version relation column =>
      simp only [run] at ran
      split at ran
      · rename_i there
        cases ran
        exact there
      · exact present_of_added ((map_error_eq_ok_iff _ _ _).mp ran)
  | record version description =>
      cases ran
      simp [Present]

/-- What is there stays there. -/
theorem Present.later {action : Action} {before after : Catalog}
    (present : action.Present before) (grows : before.Grows after) : action.Present after := by
  cases action with
  | openLedger =>
      obtain ⟨recorded, known⟩ := Option.isSome_iff_exists.mp present
      obtain ⟨added, last⟩ := grows.ledger recorded known
      simp only [Present, last, Option.isSome_some]
  | apply version statement =>
      cases statement with
      | createRelation name columns => exact grows.has_relation present
      | createIndex name relation columns =>
          exact ⟨grows.has_relation present.1, grows.has_index present.2⟩
      | addColumn relation column => exact grows.column_exists present
  | complete version relation column => exact grows.column_exists present
  | record version description =>
      cases known : before.ledger with
      | none =>
          simp only [Present, known] at present
          cases present
      | some recorded =>
          obtain ⟨added, last⟩ := grows.ledger recorded known
          simp only [Present, known, last, Option.getD_some, List.map_append] at present ⊢
          exact List.mem_append_left _ present

theorem run_of_present {action : Action} {catalog : Catalog} (repeatable : action.IsRepeatable)
    (present : action.Present catalog) : action.run catalog = .ok catalog := by
  cases action with
  | openLedger => cases repeatable
  | record version description => cases repeatable
  | complete version relation column => exact if_pos present
  | apply version statement =>
      apply (map_error_eq_ok_iff _ _ _).mpr
      cases statement with
      | addColumn relation column => cases repeatable
      | createIndex name relation columns =>
          exact Statement.create_index_again present.1 present.2
      | createRelation name columns =>
          obtain ⟨found, known⟩ := Option.isSome_iff_exists.mp present
          simp only [Statement.run, Statement.createRelationIn, known]

/-- Only recording touches the ledger, once there is one. -/
theorem ledger_of_run {action : Action} {before after : Catalog} (repeatable : action.IsRepeatable)
    (ran : action.run before = .ok after) : after.ledger = before.ledger := by
  cases action with
  | openLedger => cases repeatable
  | record version description => cases repeatable
  | complete version relation column =>
      simp only [run] at ran
      split at ran
      · cases ran
        rfl
      · have added := (map_error_eq_ok_iff _ _ _).mp ran
        rw [(Statement.add_column_of_ok added).2]
        rfl
  | apply version statement =>
      have done := (map_error_eq_ok_iff _ _ _).mp ran
      cases statement with
      | addColumn relation column => cases repeatable
      | createIndex name relation columns => exact (Statement.create_index_of_ok done).2.2.2.2
      | createRelation name columns =>
          cases done
          rcases Statement.create_relation_cases before name columns with ⟨_, _, same⟩ | ⟨_, made⟩
          · rw [same]
          · rw [made]

end Action

theorem repeatable_steps {migration : Migration} (known : migration ∈ all) :
    ∀ action ∈ steps migration, action.IsRepeatable := by
  simp only [all, List.mem_cons, List.not_mem_nil, or_false] at known
  rcases known with rfl | rfl | rfl <;>
    simp [steps, createForms, createInstances, Action.IsRepeatable]

end Migration

end FieldPost
