import FieldPost.Proofs.Interruptions

/-!
What the ledger says after a run, on whatever catalog it was started. A run goes through the
migrations that are left and records each as soon as its work is done; the first whose work fails
ends the run and is not recorded. So what a run records is new, is recorded once, and has been
done, and nothing that was there is gone. The next run finds all of it and ends in the same way
without a change. Which catalogs a run fails on is not said.
-/

namespace FieldPost.Migration

open FieldPost.Answers

/-- The line of the ledger for a migration. -/
def line (migration : Migration) : Int × String := (migration.version, migration.description)

def versions (catalog : Catalog) : List Int := (catalog.ledger.getD []).map (·.1)

/-! ### What fails -/

theorem step_error_named {migration : Migration} {action : Action} (step : action ∈ steps migration)
    {catalog : Catalog} {error : DatabaseError} (failed : action.run catalog = .error error) :
    ∃ reason, error = .migration migration.version reason := by
  have named : ∀ statement, applyStatement migration.version statement catalog = .error error →
      ∃ reason, error = .migration migration.version reason := by
    intro statement stopped
    unfold applyStatement at stopped
    cases ran : statement.run catalog with
    | ok after => simp only [ran, Except.mapError, reduceCtorEq] at stopped
    | error reason =>
        simp only [ran, Except.mapError, Except.error.injEq] at stopped
        exact ⟨reason, stopped.symm⟩
  unfold steps at step
  split at step
  · obtain ⟨statement, _, rfl⟩ := List.mem_map.mp step
    exact named statement failed
  · rw [List.mem_singleton] at step
    subst step
    simp only [Action.run] at failed
    split at failed
    · cases failed
    · exact named _ failed

theorem error_of_perform {catalog after : Catalog} {actions : List Action} {error : DatabaseError}
    (failed : perform catalog actions = (after, .error error)) :
    ∃ action ∈ actions, ∃ before, action.run before = .error error := by
  induction actions generalizing catalog with
  | nil => cases failed
  | cons action rest induction =>
      unfold perform at failed
      cases ran : action.run catalog with
      | error problem =>
          simp only [ran, Prod.mk.injEq, Except.error.injEq] at failed
          exact ⟨action, List.mem_cons_self, catalog, by rw [ran, failed.2]⟩
      | ok changed =>
          simp only [ran] at failed
          obtain ⟨other, member, found⟩ := induction failed
          exact ⟨other, List.mem_cons_of_mem _ member, found⟩

/-! ### What is recorded -/

/-- At some point of the way from one catalog to the other all the work of a migration was done
and nothing of it failed. -/
def Worked (start final : Catalog) (migration : Migration) : Prop :=
  ∃ before after, start.Grows before ∧ perform before (steps migration) = (after, .ok ()) ∧
    after.Grows final

theorem Worked.within {start first last final : Catalog} {migration : Migration}
    (worked : Worked first last migration) (early : start.Grows first) (late : last.Grows final) :
    Worked start final migration := by
  obtain ⟨before, after, reached, done, kept⟩ := worked
  exact ⟨before, after, early.trans reached, done, kept.trans late⟩

/-- How far the migrations that are left were carried out: so many were done and recorded, and
if there are more, then the work of the next one failed. -/
structure CarriedOut (start final : Catalog) (ended : Except DatabaseError Unit)
    (left done : List Migration) : Prop where
  begins : done <+: left
  ledger : final.ledger.getD [] = start.ledger.getD [] ++ done.map line
  worked : ∀ migration ∈ done, Worked start final migration
  stopped : ∀ error, ended = .error error → ∃ failed later reason,
    left = done ++ failed :: later ∧ error = .migration failed.version reason

theorem carried_out (left : List Migration) (known : ∀ migration ∈ left, migration ∈ all)
    (catalog : Catalog) :
    ∃ done, CarriedOut catalog (perform catalog (left.flatMap actions)).1
      (perform catalog (left.flatMap actions)).2 left done := by
  induction left generalizing catalog with
  | nil =>
      refine ⟨[], List.prefix_rfl, (List.append_nil _).symm, ?_, ?_⟩
      · intro migration none
        cases none
      · intro error failed
        cases failed
  | cons migration later induction =>
      have repeatable := repeatable_steps (known migration List.mem_cons_self)
      have ledger := ledger_of_perform catalog repeatable
      rw [List.flatMap_cons, actions_eq, perform_append, perform_append]
      rcases worked : perform catalog (steps migration) with ⟨made, ended⟩
      rw [worked] at ledger
      cases ended with
      | error error =>
          refine ⟨[], List.nil_prefix, ?_, ?_, ?_⟩
          · rw [List.map_nil, List.append_nil]
            exact congrArg (·.getD []) ledger
          · intro other none
            cases none
          · intro same failed
            cases failed
            obtain ⟨action, step, before, stopped⟩ := error_of_perform worked
            obtain ⟨reason, named⟩ := step_error_named step stopped
            exact ⟨migration, later, reason, rfl, named⟩
      | ok finished =>
          -- The record follows the work at once and cannot fail.
          have recording : perform made
              [.record migration.version migration.description] =
                (Action.recorded made migration.version migration.description, .ok ()) := rfl
          simp only [recording]
          obtain ⟨done, carried⟩ := induction (fun other member =>
            known other (List.mem_cons_of_mem _ member))
            (Action.recorded made migration.version migration.description)
          have grown := grows_of_perform catalog (steps migration)
          have noted := grows_of_perform made [.record migration.version migration.description]
          have others := grows_of_perform
            (Action.recorded made migration.version migration.description) (later.flatMap actions)
          rw [worked] at grown
          rw [recording] at noted
          refine ⟨migration :: done, ?_, ?_, ?_, ?_⟩
          · exact List.cons_prefix_cons.mpr ⟨rfl, carried.begins⟩
          · rw [carried.ledger, Action.recorded, Option.getD_some, ledger, List.append_assoc]
            rfl
          · intro other member
            rcases List.mem_cons.mp member with rfl | behind
            · exact ⟨catalog, made, .refl catalog, worked, noted.trans others⟩
            · exact (carried.worked other behind).within (grown.trans noted) (.refl _)
          · intro error failed
            obtain ⟨next, rest, reason, parts, named⟩ := carried.stopped error failed
            exact ⟨next, rest, reason, congrArg (migration :: ·) parts, named⟩

/-! ### Versions -/

theorem le_greatest {recorded : List (Int × String)} {entry : Int × String}
    (member : entry ∈ recorded) : entry.1 ≤ greatest recorded := by
  induction recorded with
  | nil => cases member
  | cons first rest induction =>
      cases rest with
      | nil =>
          rw [List.mem_singleton.mp member]
          exact Int.le_refl _
      | cons second others =>
          have split : greatest (first :: second :: others) =
              max first.1 (greatest (second :: others)) := rfl
          rw [split]
          rcases List.mem_cons.mp member with rfl | later
          · exact Int.le_max_left _ _
          · exact Int.le_trans (induction later) (Int.le_max_right _ _)

theorem versions_ascend : all.Pairwise fun early late => early.version < late.version := by
  decide

theorem pending_ascends (current : Nat) :
    (pending current).Pairwise fun early late => early.version < late.version :=
  versions_ascend.sublist List.filter_sublist

theorem mem_pending_iff {current : Nat} {migration : Migration} :
    migration ∈ pending current ↔ migration ∈ all ∧ current < migration.version := by
  simp [pending]

/-- A run that reads a version carries out what is left above it. -/
theorem run_carried_out {catalog : Catalog} {current : Nat}
    (reached : currentVersion (opened catalog) = .ok current) :
    ∃ done, CarriedOut (opened catalog) (run catalog).1 (run catalog).2 (pending current) done := by
  have ran : run catalog = perform (opened catalog) ((pending current).flatMap actions) := by
    unfold run
    rw [run_for_succ]
    exact run_opened_of_version reached
  rw [ran]
  apply carried_out
  intro migration member
  exact (mem_pending_iff.mp member).1

theorem run_of_unread {catalog : Catalog} {error : DatabaseError}
    (unread : currentVersion (opened catalog) = .error error) :
    run catalog = (opened catalog, .error error) := by
  unfold run
  rw [run_for_succ]
  simp only [runOpened, plan, unread, Except.map]

theorem unread_not_migration {catalog : Catalog} {error : DatabaseError}
    (unread : currentVersion catalog = .error error) (version : Nat) (reason : String) :
    error ≠ .migration version reason := by
  unfold currentVersion at unread
  dsimp only at unread
  split at unread
  · cases unread
  · cases unread
    exact DatabaseError.noConfusion

/-- Recorded versions stay distinct when greater ones are recorded in ascending order. -/
theorem nodup_versions_iff {recorded : List Int} {done : List Migration}
    (ascend : done.Pairwise fun early late => early.version < late.version)
    (above : ∀ version ∈ recorded, ∀ migration ∈ done, version < (migration.version : Int)) :
    (recorded ++ done.map fun migration => (migration.version : Int)).Nodup ↔ recorded.Nodup := by
  have distinct : (done.map fun migration => (migration.version : Int)).Nodup := by
    apply ascend.map
    intro early late less same
    omega
  rw [List.nodup_append]
  constructor
  · exact fun whole => whole.1
  · intro nodup
    refine ⟨nodup, distinct, ?_⟩
    intro old before new after same
    obtain ⟨migration, member, rfl⟩ := List.mem_map.mp after
    have less := above old before migration member
    omega

/-- What a run leaves in the ledger. -/
structure Records (catalog : Catalog) (done : List Migration) : Prop where
  ledger : (run catalog).1.ledger = some (catalog.ledger.getD [] ++ done.map line)
  ordered : done.Sublist all
  above : ∀ version ∈ versions catalog, ∀ migration ∈ done, version < (migration.version : Int)
  worked : ∀ migration ∈ done, Worked catalog (run catalog).1 migration
  failed : ∀ version reason, (run catalog).2 = .error (.migration version reason) →
    (∀ earlier ∈ versions catalog, earlier < (version : Int)) ∧
      ∀ migration ∈ done, migration.version < version

theorem records_of_run (catalog : Catalog) : ∃ done, Records catalog done := by
  obtain ⟨recorded, there⟩ := ledger_after_run catalog
  cases reached : currentVersion (opened catalog) with
  | error error =>
      have ended := run_of_unread reached
      refine ⟨[], ?_, List.nil_sublist all, ?_, ?_, ?_⟩
      · rw [ended, List.map_nil, List.append_nil]
        rfl
      · intro version _ migration none
        cases none
      · intro migration none
        cases none
      · intro version reason failed
        rw [ended] at failed
        exact absurd (Except.error.inj failed) (unread_not_migration reached version reason)
  | ok current =>
      obtain ⟨done, carried⟩ := run_carried_out reached
      have greatest := ((current_version_eq_ok_iff _ _).mp reached).1
      have below : ∀ version ∈ versions catalog, version ≤ current := by
        intro version member
        obtain ⟨entry, inside, rfl⟩ := List.mem_map.mp member
        rw [← greatest]
        exact le_greatest inside
      have part : done.Sublist (pending current) := carried.begins.sublist
      refine ⟨done, ?_, part.trans List.filter_sublist, ?_, ?_, ?_⟩
      · have whole := carried.ledger
        rw [there] at whole ⊢
        exact congrArg some whole
      · intro version old migration new
        have later := (mem_pending_iff.mp (part.subset new)).2
        have earlier := below version old
        omega
      · intro migration member
        have opening : Action.openLedger.run catalog = .ok (opened catalog) := rfl
        exact (carried.worked migration member).within (Action.grows_of_run opening) (.refl _)
      · intro version reason failed
        obtain ⟨next, later, _, parts, named⟩ := carried.stopped _ failed
        have same : version = next.version := (DatabaseError.migration.inj named).1
        have ascends := pending_ascends current
        have member : next ∈ pending current := by
          rw [parts]
          simp
        rw [parts, List.pairwise_append] at ascends
        rw [same]
        constructor
        · intro earlier old
          have above := (mem_pending_iff.mp member).2
          have least := below earlier old
          omega
        · intro migration before
          exact ascends.2.2 migration before next List.mem_cons_self

theorem Records.versions_after {catalog : Catalog} {done : List Migration}
    (records : Records catalog done) :
    versions (run catalog).1 =
      Migration.versions catalog ++ done.map fun migration => (migration.version : Int) := by
  unfold Migration.versions
  rw [records.ledger, Option.getD_some, List.map_append, List.map_map]
  rfl

/-- On any catalog a run takes nothing away. What it adds to the ledger are migrations in their
order, each above every version that was recorded and with all of its work done; so versions stay
distinct, and one whose work failed is not recorded. Another run changes nothing and ends the same,
with success if the first one did. -/
theorem runs_only_add_and_repeat (catalog : Catalog) :
    catalog.Grows (run catalog).1 ∧
      (∃ done : List Migration,
        (run catalog).1.ledger = some (catalog.ledger.getD [] ++ done.map line) ∧
        done.Sublist all ∧
        (∀ version ∈ versions catalog, ∀ migration ∈ done, version < (migration.version : Int)) ∧
        ∀ migration ∈ done, Worked catalog (run catalog).1 migration) ∧
      ((versions (run catalog).1).Nodup ↔ (versions catalog).Nodup) ∧
      (∀ version reason, (run catalog).2 = .error (.migration version reason) →
        (version : Int) ∉ versions (run catalog).1) ∧
      run (run catalog).1 = run catalog := by
  obtain ⟨done, records⟩ := records_of_run catalog
  have again : run (run catalog).1 = run catalog := run_of_cut_off (longest + 1) catalog
  refine ⟨grows_of_run catalog,
    ⟨done, records.ledger, records.ordered, records.above, records.worked⟩, ?_, ?_, again⟩
  · rw [records.versions_after]
    exact nodup_versions_iff (versions_ascend.sublist records.ordered) records.above
  · intro version reason failed recorded
    obtain ⟨above, others⟩ := records.failed version reason failed
    rw [records.versions_after] at recorded
    rcases List.mem_append.mp recorded with old | new
    · exact absurd (above _ old) (Int.lt_irrefl _)
    · obtain ⟨migration, member, same⟩ := List.mem_map.mp new
      have less := others migration member
      omega

end FieldPost.Migration
