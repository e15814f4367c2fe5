import FieldPost.Proofs.SchemaGrowth
import Mathlib.Data.List.Flatten

/-!
Migrations that are cut off. A run after one that was cut off repeats what has no effect any more
and goes on where that one ended, whatever the catalog was. On a catalog that is laid out as the
versions before the present one left it, or ahead of them, the run succeeds as well. Where a run
fails on other catalogs is not said.
-/

namespace FieldPost

namespace Migration

/-! ### Runs -/

theorem perform_append (catalog : Catalog) (first second : List Action) :
    perform catalog (first ++ second) =
      match perform catalog first with
      | (reached, .ok ()) => perform reached second
      | (reached, .error error) => (reached, .error error) := by
  induction first generalizing catalog with
  | nil => rfl
  | cons action rest induction =>
      simp only [List.cons_append, perform]
      cases action.run catalog with
      | error error => rfl
      | ok changed => exact induction changed

theorem grows_of_perform (catalog : Catalog) (actions : List Action) :
    catalog.Grows (perform catalog actions).1 := by
  induction actions generalizing catalog with
  | nil => exact .refl catalog
  | cons action rest induction =>
      unfold perform
      cases ran : action.run catalog with
      | error error => exact .refl catalog
      | ok changed => exact (Action.grows_of_run ran).trans (induction changed)

/-- Work that was done, as far as it went, ends the same when it is done again. -/
theorem perform_again (catalog : Catalog) {actions : List Action}
    (repeatable : ∀ action ∈ actions, action.IsRepeatable) :
    perform (perform catalog actions).1 actions = perform catalog actions := by
  induction actions generalizing catalog with
  | nil => rfl
  | cons action rest induction =>
      cases ran : action.run catalog with
      | error error =>
          have ended : perform catalog (action :: rest) = (catalog, .error error) := by
            simp only [perform, ran]
          rw [ended, ended]
      | ok changed =>
          have goesOn : perform catalog (action :: rest) = perform changed rest := by
            simp only [perform, ran]
          have there := (Action.present_of_run ran).later (grows_of_perform changed rest)
          have again := Action.run_of_present (repeatable action List.mem_cons_self) there
          rw [goesOn, perform, again]
          exact induction changed fun other member =>
            repeatable other (List.mem_cons_of_mem _ member)

/-- Work that was cut off is taken up by doing it all. -/
theorem perform_taken_up (catalog : Catalog) {actions : List Action}
    (repeatable : ∀ action ∈ actions, action.IsRepeatable) (limit : Nat) :
    perform (perform catalog (actions.take limit)).1 actions = perform catalog actions := by
  have part : ∀ action ∈ actions.take limit, action.IsRepeatable := fun action member =>
    repeatable action (List.mem_of_mem_take member)
  have again := perform_again catalog part
  rw [← List.take_append_drop limit actions, perform_append, perform_append,
    List.take_append_drop, again]

theorem ledger_of_perform (catalog : Catalog) {actions : List Action}
    (repeatable : ∀ action ∈ actions, action.IsRepeatable) :
    (perform catalog actions).1.ledger = catalog.ledger := by
  induction actions generalizing catalog with
  | nil => rfl
  | cons action rest induction =>
      unfold perform
      cases ran : action.run catalog with
      | error error => rfl
      | ok changed =>
          have others := induction changed fun other member =>
            repeatable other (List.mem_cons_of_mem _ member)
          exact others.trans (Action.ledger_of_run (repeatable action List.mem_cons_self) ran)

/-- A version that is greater than all before is the greatest from then on. -/
theorem greatest_append (recorded : List (Int × String)) (entry : Int × String)
    (counted : 0 ≤ entry.1) :
    greatest (recorded ++ [entry]) = max (greatest recorded) entry.1 := by
  induction recorded with
  | nil => exact (Int.max_eq_right counted).symm
  | cons first rest induction =>
      cases rest with
      | nil => rfl
      | cons second others =>
          have later := congrArg (max first.1) induction
          rw [← Int.max_assoc] at later
          exact later

/-- The migrations that are left are the next one and those that are left after it. -/
theorem pending_cons {current : Nat} {migration : Migration} {later : List Migration}
    (left : pending current = migration :: later) :
    migration ∈ all ∧ migration.version = current + 1 ∧ current < 3 ∧
      pending migration.version = later := by
  match current with
  | 0 | 1 | 2 =>
      cases left
      decide
  | current + 3 =>
      simp [pending, all] at left

theorem current_version_eq_ok_iff (catalog : Catalog) (current : Nat) :
    currentVersion catalog = .ok current ↔
      greatest (catalog.ledger.getD []) = current ∧ (current : Int) ≤ versionLimit := by
  unfold currentVersion
  dsimp only
  split
  · rename_i bounds
    rw [Except.ok.injEq]
    omega
  · rename_i bounds
    simp only [reduceCtorEq, false_iff]
    omega

theorem length_pending_le (current : Nat) : ((pending current).flatMap actions).length ≤ longest :=
  (List.filter_sublist.flatMap actions).length_le

/-- A run on an opened catalog does what is left, from the version that is recorded. -/
theorem run_opened_of_version {catalog : Catalog} {current : Nat}
    (reached : currentVersion catalog = .ok current) :
    runOpened longest catalog = perform catalog ((pending current).flatMap actions) := by
  unfold runOpened plan
  rw [reached]
  dsimp only [Except.map]
  rw [List.take_of_length_le (length_pending_le current)]

theorem current_version_of_ledger {before after : Catalog} (same : after.ledger = before.ledger) :
    currentVersion after = currentVersion before := by
  unfold currentVersion
  rw [same]

/-- The catalog with one more recorded version. -/
def Action.recorded (catalog : Catalog) (version : Nat) (description : String) : Catalog :=
  { catalog with ledger := some (catalog.ledger.getD [] ++ [((version : Int), description)]) }

theorem current_version_of_record {catalog : Catalog} {current version : Nat}
    (reached : currentVersion catalog = .ok current) (next : version = current + 1)
    (few : current < 3) (description : String) :
    currentVersion (Action.recorded catalog version description) = .ok version := by
  rw [current_version_eq_ok_iff] at reached ⊢
  dsimp only [Action.recorded, Option.getD_some]
  rw [greatest_append _ _ (Int.natCast_nonneg version), reached.1]
  simp only [versionLimit]
  omega

/-- A run that was cut off anywhere among the migrations that were left is taken up by the next
one. The cut lies in the work of the first of them, which is then repeated, or behind its record,
and then what is left is less. -/
theorem taken_up (left : List Migration) {catalog : Catalog} {current : Nat}
    (reached : currentVersion catalog = .ok current) (rest : pending current = left)
    (limit : Nat) :
    runOpened longest (perform catalog ((left.flatMap actions).take limit)).1 =
      runOpened longest catalog := by
  induction left generalizing catalog current limit with
  | nil => rw [List.flatMap_nil, List.take_nil, perform]
  | cons migration later induction =>
      obtain ⟨known, next, few, less⟩ := pending_cons rest
      have repeatable := repeatable_steps known
      have planned : (migration :: later).flatMap actions =
          steps migration ++
            .record migration.version migration.description :: later.flatMap actions := by
        rw [List.flatMap_cons, actions_eq, List.append_assoc]
        rfl
      have inWork : ∀ limit, runOpened longest
          (perform catalog ((steps migration).take limit)).1 = runOpened longest catalog := by
        intro limit
        have part : ∀ action ∈ (steps migration).take limit, action.IsRepeatable :=
          fun action member => repeatable action (List.mem_of_mem_take member)
        have ledger := ledger_of_perform catalog part
        have still := (current_version_of_ledger ledger).trans reached
        rw [run_opened_of_version still, run_opened_of_version reached, rest, planned,
          perform_append, perform_append, perform_taken_up catalog repeatable]
      rw [planned, List.take_append]
      rcases Nat.le_total limit (steps migration).length with within | beyond
      · rw [Nat.sub_eq_zero_of_le within, List.take_zero, List.append_nil]
        exact inWork limit
      · rw [List.take_of_length_le beyond, perform_append]
        have whole := inWork (steps migration).length
        rw [List.take_length] at whole
        have ledger := ledger_of_perform catalog repeatable
        rcases worked : perform catalog (steps migration) with ⟨made, ended⟩
        rw [worked] at whole ledger
        cases ended with
        | error error => exact whole
        | ok done =>
            have made_reached := (current_version_of_ledger ledger).trans reached
            have recorded :=
              current_version_of_record made_reached next few migration.description
            have goesOn : runOpened longest catalog = runOpened longest
                (Action.recorded made migration.version migration.description) := by
              rw [run_opened_of_version recorded, run_opened_of_version reached, rest, planned,
                perform_append, worked, less]
              rfl
            cases remaining : limit - (steps migration).length with
            | zero => exact whole
            | succ limit =>
                rw [goesOn]
                exact induction recorded less limit

/-- The catalog of a run once its ledger is there. -/
def opened (catalog : Catalog) : Catalog :=
  { catalog with ledger := some (catalog.ledger.getD []) }

theorem opened_of_ledger {catalog : Catalog} (there : catalog.ledger.isSome = true) :
    opened catalog = catalog := by
  obtain ⟨recorded, known⟩ := Option.isSome_iff_exists.mp there
  unfold opened
  rw [known, Option.getD_some, ← known]

theorem run_for_succ (limit : Nat) (catalog : Catalog) :
    runFor (limit + 1) catalog = runOpened limit (opened catalog) := rfl

/-- Wherever a run is cut off, and on whatever catalog, the next run ends as it would have. -/
theorem run_of_cut_off (limit : Nat) (catalog : Catalog) :
    run (runFor limit catalog).1 = run catalog := by
  cases limit with
  | zero => rfl
  | succ limit =>
      have there : (opened catalog).ledger.isSome = true := rfl
      unfold run
      rw [run_for_succ, run_for_succ, run_for_succ]
      cases reached : currentVersion (opened catalog) with
      | error error =>
          have ended : runOpened limit (opened catalog) = (opened catalog, .error error) := by
            simp only [runOpened, plan, reached, Except.map]
          rw [ended, opened_of_ledger there]
      | ok current =>
          have ran : runOpened limit (opened catalog) =
              perform (opened catalog) (((pending current).flatMap actions).take limit) := by
            simp only [runOpened, plan, reached, Except.map]
          have grows := grows_of_perform (opened catalog)
            (((pending current).flatMap actions).take limit)
          have opening : Action.openLedger.Present (opened catalog) := there
          have still := opening.later grows
          rw [ran, opened_of_ledger still]
          exact taken_up (pending current) reached rfl limit

/-- What runs leave that are cut off after so many actions each, one after the other. -/
def cutOff (catalog : Catalog) (limits : List Nat) : Catalog :=
  limits.foldl (fun catalog limit => (runFor limit catalog).1) catalog

theorem run_after_cut_off (catalog : Catalog) (limits : List Nat) :
    run (cutOff catalog limits) = run catalog := by
  induction limits generalizing catalog with
  | nil => rfl
  | cons limit rest induction => exact (induction _).trans (run_of_cut_off limit catalog)

/-! ### Runs that succeed -/

theorem present_of_perform {catalog after : Catalog} {actions : List Action}
    (done : perform catalog actions = (after, .ok ())) :
    ∀ action ∈ actions, action.Present after := by
  induction actions generalizing catalog with
  | nil => simp
  | cons action rest induction =>
      intro other member
      unfold perform at done
      cases ran : action.run catalog with
      | error error =>
          rw [ran] at done
          cases done
      | ok changed =>
          simp only [ran] at done
          rcases List.mem_cons.mp member with rfl | later
          · have grows := grows_of_perform changed rest
            rw [done] at grows
            exact (Action.present_of_run ran).later grows
          · exact induction done other later

end Migration

/-- Where the relation is there, it has one of these lists of columns. -/
def Catalog.LaidOut (catalog : Catalog) (name : String) (layouts : List (List String)) : Prop :=
  ∀ found, catalog.relation? name = some found → found.columns ∈ layouts

namespace Catalog.LaidOut

variable {catalog after : Catalog} {name other : String} {layouts : List (List String)}

theorem of_relations (laid : catalog.LaidOut name layouts)
    (same : after.relations = catalog.relations) : after.LaidOut name layouts := by
  unfold LaidOut relation? at *
  rw [same]
  exact laid

/-- A relation that is created with a known list of columns, or under another name. -/
theorem create (laid : catalog.LaidOut name layouts) {columns : List String}
    (fits : sameName other name = true → columns ∈ layouts) :
    (Statement.createRelationIn catalog other columns).LaidOut name layouts := by
  rcases Statement.create_relation_cases catalog other columns with ⟨_, _, same⟩ | ⟨_, created⟩
  · rw [same]
    exact laid
  · intro found known
    rw [created] at known
    cases before : catalog.relation? name with
    | some earlier =>
        have kept : earlier = found := by
          unfold relation? at known before
          rw [List.find?_append, before] at known
          exact Option.some.inj known
        exact laid found (kept ▸ before)
    | none =>
        unfold relation? at known before
        rw [List.find?_append, before, Option.none_or, List.find?_singleton] at known
        split at known
        · rename_i named
          cases known
          exact fits named
        · cases known

/-- A column that is added gives another list of columns, where the name is that of the
relation. -/
theorem add_column (laid : catalog.LaidOut name layouts) {relation column : String}
    (fits : ∀ found, catalog.relation? name = some found → sameName found.name relation = true →
      found.columns ++ [column] ∈ layouts) :
    (catalog.modify relation fun found => found.addColumn column).LaidOut name layouts := by
  intro found known
  rw [Statement.relation_add_column] at known
  rcases Option.map_eq_some_iff.mp known with ⟨before, there, changed⟩
  split at changed
  · rename_i named
    cases changed
    exact fits _ there named
  · cases changed
    exact laid _ there

end Catalog.LaidOut

namespace Migration

theorem perform_indexes (version : Nat) {catalog : Catalog} {relation : String} {found : Relation}
    (known : catalog.relation? relation = some found) (indexes : List (String × List String))
    (fits : ∀ index ∈ indexes, index.2 ⊆ found.columns) :
    ∃ after, perform catalog (indexes.map fun index =>
        .apply version (.createIndex index.1 relation index.2)) = (after, .ok ()) ∧
      after.relations = catalog.relations := by
  induction indexes generalizing catalog with
  | nil => exact ⟨catalog, rfl, rfl⟩
  | cons index rest induction =>
      have has : ∀ column ∈ index.2, found.hasColumn column = true := by
        intro column member
        have itself : sameName column column = true := (same_name_iff column column).mpr rfl
        exact List.any_eq_true.mpr ⟨column, fits index List.mem_cons_self member, itself⟩
      have creatable : ∃ made,
          Statement.createIndexIn catalog index.1 relation index.2 = .ok made :=
        Statement.create_index_of_columns known has
      obtain ⟨made, created⟩ := creatable
      have relations := (Statement.create_index_of_ok created).2.2.1
      have still : made.relation? relation = some found := by
        unfold Catalog.relation? at known ⊢
        rw [relations]
        exact known
      obtain ⟨after, done, same⟩ := induction still fun other member =>
        fits other (List.mem_cons_of_mem _ member)
      refine ⟨after, ?_, same.trans relations⟩
      simp only [List.map_cons, perform, Action.run, applyStatement, Statement.run, created,
        Except.mapError]
      exact done

/-- Creating a relation with its indexes succeeds where the relation, if it is there, has all the
columns that it would be made with. -/
theorem perform_creation (version : Nat) {catalog : Catalog} {relation : String}
    {columns : List String} (indexes : List (String × List String))
    (fits : ∀ index ∈ indexes, index.2 ⊆ columns)
    (holds : ∀ found, catalog.relation? relation = some found → columns ⊆ found.columns) :
    ∃ after, perform catalog (.apply version (.createRelation relation columns) ::
        indexes.map fun index => .apply version (.createIndex index.1 relation index.2)) =
          (after, .ok ()) ∧
      after.relations = (Statement.createRelationIn catalog relation columns).relations := by
  obtain ⟨found, known⟩ :=
    Option.isSome_iff_exists.mp (Statement.created_relation catalog relation columns)
  have complete : columns ⊆ found.columns := by
    have laid : (Statement.createRelationIn catalog relation columns).LaidOut relation
        (columns :: ((catalog.relation? relation).map (·.columns)).toList) := by
      apply Catalog.LaidOut.create
      · intro earlier there
        simp [there]
      · intro _
        exact List.mem_cons_self
    rcases List.mem_cons.mp (laid found known) with same | earlier
    · rw [same]
      exact List.Subset.refl columns
    · rw [Option.mem_toList, Option.map_eq_some_iff] at earlier
      obtain ⟨before, there, same⟩ := earlier
      rw [← same]
      exact holds before there
  exact perform_indexes version known indexes fun index member =>
    List.Subset.trans (fits index member) complete

/-- A column is made complete where the relation has it, spelled the same, or has only other
columns. -/
theorem perform_completion (version : Nat) {catalog : Catalog} {relation column : String}
    {columns : List String} {found : Relation} (known : catalog.relation? relation = some found)
    (apart : columns.any (sameName column) = false)
    (laid : found.columns = columns ∨ found.columns = columns ++ [column]) :
    ∃ after, perform catalog [.complete version relation column] = (after, .ok ()) ∧
      (after = catalog ∨ found.columns = columns ∧
        after = catalog.modify relation fun found => found.addColumn column) := by
  rcases laid with fewer | complete
  · have missing : catalog.columnExists relation column = false := by
      rw [Bool.eq_false_iff, ne_eq, Catalog.column_exists_iff]
      rintro ⟨other, there, member⟩
      rw [known] at there
      cases there
      have named : sameName column column = true := (same_name_iff column column).mpr rfl
      rw [fewer] at member
      exact List.any_eq_false.mp apart column member named
    have added : Statement.addColumnIn catalog relation column =
        .ok (catalog.modify relation fun found => found.addColumn column) := by
      unfold Statement.addColumnIn Relation.hasColumn
      rw [known]
      simp only [fewer, apart, Bool.false_eq_true, if_false]
    refine ⟨_, ?_, .inr ⟨fewer, rfl⟩⟩
    simp only [perform, Action.run, missing, Bool.false_eq_true, if_false, applyStatement,
      Statement.run, added, Except.mapError]
  · have there : catalog.columnExists relation column = true := by
      rw [Catalog.column_exists_iff]
      refine ⟨found, known, ?_⟩
      rw [complete]
      exact List.mem_append_right _ List.mem_cons_self
    refine ⟨catalog, ?_, .inl rfl⟩
    simp only [perform, Action.run, there, if_true]

def completeColumns : List String := formColumns ++ ["auto_delete"]

/-- The recorded versions are those up to this one, and all that they made is there. What later
ones make may be there already. -/
structure Reached (version : Nat) (catalog : Catalog) : Prop where
  recorded : (catalog.ledger.getD []).map (·.1) = (List.range version).map fun n : Nat => (n : Int) + 1
  made : ∀ migration ∈ all, migration.version ≤ version →
    ∀ action ∈ steps migration, action.Present catalog
  forms : catalog.LaidOut "forms" [formColumns, completeColumns]
  instances : catalog.LaidOut "instances" [instanceColumns]

theorem greatest_of_recorded (version : Nat) (recorded : List (Int × String))
    (versions : recorded.map (·.1) = (List.range version).map fun n : Nat => (n : Int) + 1) :
    greatest recorded = version := by
  induction version generalizing recorded with
  | zero =>
      have empty : recorded = [] := List.map_eq_nil_iff.mp versions
      rw [empty]
      rfl
  | succ version induction =>
      rw [List.range_succ, List.map_append] at versions
      obtain ⟨early, last, rfl, earlier, latest⟩ := List.map_eq_append_iff.mp versions
      obtain ⟨entry, rest, rfl, numbered, none⟩ := List.map_eq_cons_iff.mp latest
      have alone : rest = [] := List.map_eq_nil_iff.mp none
      dsimp only at numbered
      have counted : 0 ≤ entry.1 := by omega
      rw [alone, greatest_append _ _ counted, induction early earlier]
      omega

namespace Reached

variable {version : Nat} {catalog after : Catalog}

theorem current_version (reached : Reached version catalog) (known : version ≤ 3) :
    currentVersion catalog = .ok version := by
  rw [current_version_eq_ok_iff]
  refine ⟨greatest_of_recorded version _ reached.recorded, ?_⟩
  simp only [versionLimit]
  omega

theorem opened (reached : Reached version catalog) : Reached version (opened catalog) where
  recorded := reached.recorded
  made migration known earlier action member := by
    have ran : Action.openLedger.run catalog = .ok (Migration.opened catalog) := rfl
    exact (reached.made migration known earlier action member).later (Action.grows_of_run ran)
  forms := reached.forms.of_relations rfl
  instances := reached.instances.of_relations rfl

end Reached

theorem same_version {one other : Migration} (known : one ∈ all) (known_other : other ∈ all)
    (same : one.version = other.version) : one = other := by
  simp only [all, List.mem_cons, List.not_mem_nil, or_false] at known known_other
  rcases known with rfl | rfl | rfl <;> rcases known_other with rfl | rfl | rfl <;> trivial

theorem other_name : sameName "forms" "instances" = false ∧
    sameName "instances" "forms" = false := by
  decide

/-- The work of the next version succeeds and keeps to the layouts. -/
theorem perform_steps {migration : Migration} {version : Nat} {catalog : Catalog}
    (known : migration ∈ all) (next : migration.version = version + 1)
    (reached : Reached version catalog) :
    ∃ after, perform catalog (steps migration) = (after, .ok ()) ∧
      after.LaidOut "forms" [formColumns, completeColumns] ∧
      after.LaidOut "instances" [instanceColumns] := by
  simp only [all, List.mem_cons, List.not_mem_nil, or_false] at known
  rcases known with rfl | rfl | rfl
  · have fits : ∀ index ∈ [("idx_forms_form_id", ["form_id", "version"])],
        index.2 ⊆ formColumns := by decide
    obtain ⟨after, done, same⟩ := perform_creation 1 _ fits fun found there => by
      rcases List.mem_pair.mp (reached.forms found there) with laid | laid
      · rw [laid]
        exact List.Subset.refl formColumns
      · rw [laid]
        exact List.subset_append_left _ _
    refine ⟨after, done, ?_, ?_⟩
    · exact (reached.forms.create fun _ => List.mem_cons_self).of_relations same
    · apply Catalog.LaidOut.of_relations _ same
      apply reached.instances.create
      simp [other_name]
  · have fits : ∀ index ∈ [("idx_instances_status", ["status"]),
        ("idx_instances_form_id", ["form_id"])], index.2 ⊆ instanceColumns := by decide
    obtain ⟨after, done, same⟩ := perform_creation 2 _ fits fun found there => by
      rw [List.mem_singleton.mp (reached.instances found there)]
      exact List.Subset.refl instanceColumns
    refine ⟨after, done, ?_, ?_⟩
    · apply Catalog.LaidOut.of_relations _ same
      apply reached.forms.create
      simp [other_name]
    · exact (reached.instances.create fun _ => List.mem_cons_self).of_relations same
  · have second : version = 2 := (Nat.succ.inj next).symm
    have made := reached.made ⟨1, "create_forms_table", .statements createForms⟩ (by decide)
      (by rw [second]; decide) (.apply 1 (.createRelation "forms" formColumns)) (by decide)
    obtain ⟨found, there⟩ := Option.isSome_iff_exists.mp made
    have apart : formColumns.any (sameName "auto_delete") = false := by decide
    obtain ⟨after, done, unchanged | ⟨fewer, changed⟩⟩ :=
      perform_completion 3 there apart (List.mem_pair.mp (reached.forms found there))
    · rw [unchanged] at done
      exact ⟨catalog, done, reached.forms, reached.instances⟩
    · refine ⟨after, done, ?_, ?_⟩
      · rw [changed]
        apply reached.forms.add_column
        intro other again named
        rw [there] at again
        cases again
        rw [fewer]
        exact List.mem_cons_of_mem _ List.mem_cons_self
      · rw [changed]
        apply reached.instances.add_column
        intro other again named
        have instances := (same_name_iff _ _).mp (Catalog.name_of_relation again)
        have forms := (same_name_iff _ _).mp named
        have same := (same_name_iff _ _).mpr (instances.symm.trans forms)
        rw [other_name.2] at same
        cases same

theorem Reached.record {migration : Migration} {version : Nat} {before catalog : Catalog}
    (known : migration ∈ all) (next : migration.version = version + 1)
    (reached : Reached version before)
    (done : perform before (steps migration) = (catalog, .ok ()))
    (forms : catalog.LaidOut "forms" [formColumns, completeColumns])
    (instances : catalog.LaidOut "instances" [instanceColumns]) :
    Reached (version + 1)
      (Action.recorded catalog migration.version migration.description) := by
  have ran : (Action.record migration.version migration.description).run catalog =
      .ok (Action.recorded catalog migration.version migration.description) := rfl
  have recording := Action.grows_of_run ran
  have working := grows_of_perform before (steps migration)
  have ledger := ledger_of_perform before (repeatable_steps known)
  rw [done] at working ledger
  constructor
  · dsimp only at ledger
    rw [Action.recorded, Option.getD_some, List.map_append, ledger, reached.recorded,
      List.range_succ, List.map_append, next]
    rfl
  · intro other other_known earlier action member
    rcases Nat.lt_or_eq_of_le earlier with less | same
    · have there := reached.made other other_known (Nat.le_of_lt_succ less) action member
      exact there.later (working.trans recording)
    · rw [same_version other_known known (same.trans next.symm)] at member
      exact (present_of_perform done action member).later recording
  · exact forms.of_relations rfl
  · exact instances.of_relations rfl

/-- What is left is done, version by version. -/
theorem perform_left (left : List Migration) {version : Nat} {catalog : Catalog}
    (known : version ≤ 3) (reached : Reached version catalog) (rest : pending version = left) :
    ∃ after, perform catalog (left.flatMap actions) = (after, .ok ()) ∧ Reached 3 after := by
  induction left generalizing version catalog with
  | nil =>
      have last : version = 3 := by
        match version with
        | 0 | 1 | 2 => cases rest
        | 3 => rfl
        | version + 4 => omega
      exact ⟨catalog, rfl, last ▸ reached⟩
  | cons migration later induction =>
      obtain ⟨member, next, few, less⟩ := pending_cons rest
      obtain ⟨worked, done, forms, instances⟩ := perform_steps member next reached
      have recorded := reached.record member next done forms instances
      rw [next] at less
      obtain ⟨after, others, last⟩ := induction few recorded less
      refine ⟨after, ?_, last⟩
      rw [List.flatMap_cons, actions_eq, perform_append, perform_append, done]
      exact others

theorem grows_after_opening (catalog : Catalog) : (opened catalog).Grows (run catalog).1 := by
  unfold run
  rw [run_for_succ]
  unfold runOpened
  split
  · exact .refl (opened catalog)
  · exact grows_of_perform (opened catalog) _

theorem grows_of_run (catalog : Catalog) : catalog.Grows (run catalog).1 := by
  have ran : Action.openLedger.run catalog = .ok (opened catalog) := rfl
  exact (Action.grows_of_run ran).trans (grows_after_opening catalog)

theorem ledger_after_run (catalog : Catalog) :
    ∃ recorded, (run catalog).1.ledger = some recorded := by
  obtain ⟨added, there⟩ := (grows_after_opening catalog).ledger _ rfl
  exact ⟨_, there⟩

theorem run_succeeds {version : Nat} {catalog : Catalog} (known : version ≤ 3)
    (reached : Reached version catalog) :
    ∃ after, run catalog = (after, .ok ()) ∧ Reached 3 after := by
  obtain ⟨after, done, last⟩ := perform_left _ known reached.opened rfl
  refine ⟨after, ?_, last⟩
  unfold run
  rw [run_for_succ, run_opened_of_version (reached.opened.current_version known)]
  exact done

/-- Runs may be cut off anywhere and as often as one likes, and the next one that is not succeeds
and ends as if it had been the only one, with nothing lost. What only reads the schema changes
nothing, so a cut behind it is the cut before it. -/
theorem cut_off_runs_end_as_one {version : Nat} {catalog : Catalog} (known : version ≤ 3)
    (reached : Reached version catalog) (limits : List Nat) :
    run (cutOff catalog limits) = run catalog ∧
      ∃ after, run catalog = (after, .ok ()) ∧ catalog.Grows after ∧ Reached 3 after ∧
        after.ledger.map (fun recorded => recorded.map (·.1)) = some [1, 2, 3] := by
  refine ⟨run_after_cut_off catalog limits, ?_⟩
  obtain ⟨after, done, last⟩ := run_succeeds known reached
  have grows := grows_of_run catalog
  rw [done] at grows
  refine ⟨after, done, grows, last, ?_⟩
  obtain ⟨recorded, there⟩ := ledger_after_run catalog
  rw [done] at there
  have versions := last.recorded
  rw [there] at versions ⊢
  exact congrArg some versions

/-- A database of the first version that was given the columns and the relation of later ones. -/
def ahead : Catalog where
  relations :=
    [⟨"forms", completeColumns,
        [[.whole 1, .text "survey", .null, .text "Survey", .text "forms/survey.xml", .null,
          .whole 1, .text "2024-01-01T00:00:00+00:00", .null]]⟩,
      ⟨"instances", instanceColumns, []⟩]
  indexes := [⟨"idx_forms_form_id", "forms", ["form_id", "version"]⟩]
  ledger := some [(1, "create_forms_table")]

theorem cut_off_runs_ahead : Reached 1 ahead ∧
    run (cutOff ahead [0, 3, 1, 2]) = run ahead ∧
    ∃ after, run ahead = (after, .ok ()) ∧ ahead.Grows after ∧ Reached 3 after ∧
      after.ledger.map (fun recorded => recorded.map (·.1)) = some [1, 2, 3] := by
  have reached : Reached 1 ahead := by
    constructor
    · decide
    · intro migration known early action member
      simp only [all, List.mem_cons, List.not_mem_nil, or_false] at known
      rcases known with rfl | rfl | rfl
      · simp only [steps, createForms, List.map_cons, List.map_nil, List.mem_cons,
          List.not_mem_nil, or_false] at member
        rcases member with rfl | rfl
        · exact (by decide : (ahead.relation? "forms").isSome = true)
        · exact (by decide : (ahead.relation? "forms").isSome = true ∧
            ahead.hasIndex "idx_forms_form_id" = true)
      · exact absurd early (by decide)
      · exact absurd early (by decide)
    · intro found there
      have same : ahead.relation? "forms" = ahead.relations.head? := by decide
      rw [same] at there
      cases there
      decide
    · intro found there
      have same : ahead.relation? "instances" = ahead.relations.getLast? := by decide
      rw [same] at there
      cases there
      decide
  exact ⟨reached, cut_off_runs_end_as_one (by decide) reached [0, 3, 1, 2]⟩

end Migration

end FieldPost
