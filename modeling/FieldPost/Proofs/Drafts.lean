import FieldPost.Proofs.FileRemoval
import FieldPost.Proofs.LifeCycle

/-!
Drafts that openings discard. Opening a form blank deletes its drafts before anything else is
tried, one after the other up to the first that the store refuses, so they are gone whether or not
the form is shown in the end. No other instance is touched, and of the files only those go that
lie with a deleted draft. A download is trusted to leave the instances alone.
-/

namespace FieldPost

open FieldPost.Answers

variable {σ : Type}

/-! ### Rows that are gone -/

namespace Table

variable {Row : Type}

/-- The table without the rows of these identifiers. -/
def without (table : Table Row) (ids : List Int) : Table Row :=
  table.keep fun entry => !ids.contains entry.1

theorem eq_of_rows {left right : Table Row} (last : left.lastId = right.lastId)
    (rows : left.rows = right.rows) : left = right := by
  cases left
  cases right
  cases last
  cases rows
  rfl

theorem without_nil (table : Table Row) : table.without [] = table := by
  apply eq_of_rows
  · rfl
  · exact List.filter_eq_self.mpr fun _ _ => rfl

theorem without_append (table : Table Row) (ids more : List Int) :
    (table.without ids).without more = table.without (ids ++ more) := by
  apply eq_of_rows
  · rfl
  · apply (List.filter_filter).trans
    apply List.filter_congr
    intro entry _
    simp [Bool.and_comm]

theorem without_singleton (table : Table Row) (id : Int) : table.without [id] = table.erase id := by
  apply eq_of_rows
  · rfl
  · apply List.filter_congr
    intro entry _
    simp only [List.contains_cons, List.contains_nil, Bool.or_false, bne]

theorem find_without (table : Table Row) (ids : List Int) (id : Int) :
    (table.without ids).find? id = if id ∈ ids then none else table.find? id := by
  have filtered := lookup_filter_key table.rows (fun key => !ids.contains key) id
  unfold find? without keep
  rw [filtered]
  by_cases inside : id ∈ ids <;> simp [inside]

theorem erase_of_missing {table : Table Row} {id : Int} (missing : table.find? id = none) :
    table.erase id = table := by
  apply eq_of_rows
  · rfl
  · apply List.filter_eq_self.mpr
    rintro ⟨key, row⟩ member
    have found := (find_eq_some_iff table key row).mpr member
    have different : key ≠ id := by
      rintro rfl
      rw [missing] at found
      cases found
    simpa using different

end Table

namespace Device

/-- The instances with these identifiers are gone, the files that went lay with them, and nothing
else in the stores is changed. -/
structure Loses (ids : List Int) (before after : Device) : Prop where
  instances : after.database.instances = before.database.instances.without ids
  changes : ChangesOnly (· ∈ ids) before after
  shrinks : FileTree.Shrinks before.files after.files
  files : ∀ location, after.files.find? location = before.files.find? location ∨
    ∃ id ∈ ids, ∃ row, before.row? id = some row ∧ before.files.InDirectoryOf row.path location

namespace Loses

variable {ids more : List Int} {first second third : Device}

theorem refl (device : Device) : Loses [] device device where
  instances := (Table.without_nil _).symm
  changes := .refl _ device
  shrinks := .refl _
  files _ := .inl rfl

theorem row_before (loses : Loses ids first second) {id : Int} {row : InstanceRow}
    (found : second.row? id = some row) : first.row? id = some row := by
  unfold row? at found
  rw [loses.instances, Table.find_without] at found
  split at found
  · cases found
  · exact found

theorem trans (early : Loses ids first second) (late : Loses more second third) :
    Loses (ids ++ more) first third where
  instances := by rw [late.instances, early.instances, Table.without_append]
  changes := (early.changes.widen _ fun _ => List.mem_append_left more).trans
    (late.changes.widen _ fun _ => List.mem_append_right ids)
  shrinks := early.shrinks.trans late.shrinks
  files location := by
    rcases late.files location with same | ⟨id, member, row, found, inside⟩
    · rw [same]
      rcases early.files location with same | ⟨id, member, lost⟩
      · exact .inl same
      · exact .inr ⟨id, List.mem_append_left more member, lost⟩
    · right
      exact ⟨id, List.mem_append_right ids member, row, early.row_before found,
        early.shrinks.in_directory inside⟩

end Loses

/-- An instance that could not be deleted is still there, and so is everything else. -/
theorem refused_delete {device : Device} {id : Int} {error : StoreError}
    (refused : (device.deleteInstance id).1 = .error error) :
    (device.deleteInstance id).2 = device := by
  rcases delete_instance_cases device id with nothing | ⟨row, filled, found, read, _⟩
  · exact nothing
  · unfold deleteInstance at refused ⊢
    cases answer : device.reach .deleteInstance (device.database.instance? id) with
    | error error => rfl
    | ok present =>
        rcases (reach_eq_ok_iff _ _ _ _).mp answer with ⟨reachable, asked⟩
        cases present with
        | none => rfl
        | some known =>
            rcases (Database.instance_eq_ok_some_iff _ _ _).mp asked with ⟨unlocked, _⟩
            simp only [answer, deleteFound, Database.deleteInstance, Database.unlocked, unlocked,
              Bool.false_eq_true, if_false] at refused
            cases refused

theorem row_of_deleted {device : Device} {id : Int}
    (deleted : (device.deleteInstance id).1 = .ok ()) :
    (device.deleteInstance id).2.row? id = none := by
  cases answer : device.reach .deleteInstance (device.database.instance? id) with
  | error error =>
      simp only [deleteInstance, answer] at deleted
      cases deleted
  | ok present =>
      rcases (reach_eq_ok_iff _ _ _ _).mp answer with ⟨reachable, asked⟩
      cases present with
      | none =>
          cases found : device.row? id with
          | none => simp only [deleteInstance, answer, deleteFound, found]
          | some row =>
              rcases (bind_eq_ok_iff _ _ _).mp asked with ⟨_, _, read⟩
              unfold row? at found
              simp only [found] at read
              rcases (map_eq_ok_iff _ _ _).mp read with ⟨_, _, absurd⟩
              cases absurd
      | some filled =>
          rcases (Database.instance_eq_ok_some_iff _ _ _).mp asked with
            ⟨unlocked, row, found, read⟩
          rw [delete_instance_of_row reachable unlocked found read, row_without_instance,
            if_pos (InstanceRow.id_of_read read).symm]

theorem loses_deleted {device : Device} {id : Int}
    (deleted : (device.deleteInstance id).1 = .ok ()) :
    Loses [id] device (device.deleteInstance id).2 where
  instances := by
    rw [Table.without_singleton]
    rcases delete_instance_cases device id with nothing | ⟨row, filled, found, read, gone⟩
    · have missing := row_of_deleted deleted
      rw [nothing] at missing ⊢
      exact (Table.erase_of_missing missing).symm
    · rw [gone, ← InstanceRow.id_of_read read]
      exact congrArg Database.instances (database_remove_files _ _)
  changes := (delete_instance_changes device id).widen _ fun _ => List.mem_singleton.mpr
  shrinks := delete_instance_shrinks device id
  files location := by
    rcases device.delete_instance_files id location with same | ⟨row, found, _, inside⟩
    · exact .inl same
    · exact .inr ⟨id, List.mem_singleton.mpr rfl, row, found, inside⟩

/-- An unfinished instance of the form is stored under the identifier. -/
def HoldsDraft (device : Device) (formId : String) (id : Int) : Prop :=
  ∃ row, device.row? id = some row ∧ row.formId = formId ∧ row.status = Status.incomplete.text

end Device

/-! ### Openings -/

/-- Downloading a form leaves what lies at these locations as it is. -/
def FormServices.Spares (services : FormServices σ) (spared : Location → Prop) : Prop :=
  ∀ formId (device : Device) far location, spared location →
    (services.download formId device far).device.files.find? location =
      device.files.find? location

namespace Opening

/-- The drafts that are listed are the unfinished instances of the form. -/
theorem mem_drafts_iff {device : Device} {formId : String} {found : List Instance}
    (listed : drafts device formId = .ok found) (id : Int) :
    id ∈ found.map (·.id) ↔ device.HoldsDraft formId id := by
  rcases (map_eq_ok_iff _ _ _).mp ((map_error_eq_ok_iff _ _ _).mp listed) with ⟨all, asked, rfl⟩
  rcases (Device.reach_eq_ok_iff _ _ _ _).mp asked with ⟨_, answered⟩
  rcases (bind_eq_ok_iff _ _ _).mp answered with ⟨_, _, read⟩
  have each := (mapM_eq_ok_iff _ _ _).mp read
  constructor
  · intro member
    rcases List.mem_map.mp member with ⟨filled, kept, rfl⟩
    rcases List.mem_filter.mp kept with ⟨among, incomplete⟩
    rcases Selection.row_of_read each among with ⟨row, inside, reads⟩
    rcases List.mem_filter.mp inside with ⟨stored, ofForm⟩
    have status := Status.text_of_ofText? (InstanceRow.status_of_read reads)
    rw [beq_iff_eq.mp incomplete] at status
    exact ⟨row, (Table.find_eq_some_iff _ _ _).mpr stored, beq_iff_eq.mp ofForm, status.symm⟩
  · rintro ⟨row, found, ofForm, status⟩
    have stored := (Table.find_eq_some_iff _ _ _).mp found
    have inside : (id, row) ∈ device.database.instances.select fun row => row.formId == formId :=
      List.mem_filter.mpr ⟨stored, beq_iff_eq.mpr ofForm⟩
    have among : id ∈ all.map (·.id) := by
      rw [Selection.ids_of_read each]
      exact List.mem_map_of_mem inside
    rcases List.mem_map.mp among with ⟨filled, member, rfl⟩
    rcases Selection.row_of_read each member with ⟨other, within, reads⟩
    have again := (Table.find_eq_some_iff _ _ _).mpr (List.mem_filter.mp within).1
    cases (show some row = some other from found.symm.trans again)
    have known := InstanceRow.status_of_read reads
    rw [status, Status.ofText?_text] at known
    have kept : (filled.status == .incomplete) = true :=
      beq_iff_eq.mpr (Option.some.inj known).symm
    exact List.mem_map_of_mem (List.mem_filter.mpr ⟨member, kept⟩)

/-- The drafts go one by one, all of them unless one is refused. -/
theorem discard_loses (world : World σ) (found : List Instance) :
    ∃ dropped, dropped <+: found ∧
      Device.Loses (dropped.map (·.id)) world.device (discard world found).2.device ∧
      ((discard world found).1 = .ok () → dropped = found) := by
  induction found generalizing world with
  | nil => exact ⟨[], List.prefix_rfl, .refl _, fun _ => rfl⟩
  | cons draft rest induction =>
      cases answer : (world.device.deleteInstance draft.id).1 with
      | error problem =>
          have ended : discard world (draft :: rest) =
              (.error (.store problem),
                { world with device := (world.device.deleteInstance draft.id).2 }) := by
            simp only [discard, World.onDevice, answer]
          rw [ended]
          refine ⟨[], List.nil_prefix, ?_, nofun⟩
          rw [Device.refused_delete answer]
          exact .refl _
      | ok done =>
          have goesOn : discard world (draft :: rest) =
              discard { world with device := (world.device.deleteInstance draft.id).2 } rest := by
            simp only [discard, World.onDevice, answer]
          rw [goesOn]
          rcases induction { world with device := (world.device.deleteInstance draft.id).2 } with
            ⟨dropped, within, loses, all⟩
          exact ⟨draft :: dropped, List.prefix_cons_inj draft |>.mpr within,
            (Device.loses_deleted answer).trans loses, fun ended => by rw [all ended]⟩

theorem discard_fails_of_store {world : World σ} {found : List Instance} {error : OpeningError}
    (failed : (discard world found).1 = .error error) : ∃ problem, error = .store problem := by
  induction found generalizing world with
  | nil => cases failed
  | cons draft rest induction =>
      simp only [discard, World.onDevice] at failed
      split at failed
      · cases failed
        exact ⟨_, rfl⟩
      · exact induction failed

theorem drafts_fail_of_store {device : Device} {formId : String} {error : OpeningError}
    (failed : drafts device formId = .error error) : ∃ problem, error = .store problem := by
  unfold drafts ofStore at failed
  cases asked : device.instancesByFormId formId with
  | ok found =>
      rw [asked] at failed
      cases failed
  | error problem =>
      rw [asked] at failed
      cases failed
      exact ⟨problem, rfl⟩

/-- What goes when a form is opened are drafts of it, and all of them unless a store fails. -/
theorem discard_drafts_loses (formId : String) (world : World σ) :
    ∃ dropped, (∀ id ∈ dropped, world.device.HoldsDraft formId id) ∧
      Device.Loses dropped world.device (discardDrafts formId world).2.device ∧
      ((∀ problem, (discardDrafts formId world).1 ≠ .error (.store problem)) →
        ∀ id, world.device.HoldsDraft formId id → id ∈ dropped) := by
  unfold discardDrafts
  cases listed : drafts world.device formId with
  | error error =>
      rcases drafts_fail_of_store listed with ⟨problem, rfl⟩
      exact ⟨[], nofun, .refl _, fun unfailed => absurd rfl (unfailed problem)⟩
  | ok found =>
      rcases discard_loses world found with ⟨dropped, within, loses, all⟩
      refine ⟨dropped.map (·.id), ?_, loses, ?_⟩
      · intro id member
        exact (mem_drafts_iff listed id).mp (List.map_subset _ within.subset member)
      · intro unfailed id held
        cases ended : (discard world found).1 with
        | error error =>
            rcases discard_fails_of_store ended with ⟨problem, rfl⟩
            exact absurd ended (unfailed problem)
        | ok done =>
            rw [all ended]
            exact (mem_drafts_iff listed id).mpr held

/-- Obtaining a form changes no instance, and no file but those that the download changes. -/
theorem obtain_keeps {services : FormServices σ} {spared : Location → Prop}
    (keeps : services.KeepsInstances) (spares : services.Spares spared) (formId : String)
    (world : World σ) :
    (obtain services formId world).2.device.database.instances =
        world.device.database.instances ∧
      ∀ location, spared location →
        (obtain services formId world).2.device.files.find? location =
          world.device.files.find? location := by
  unfold obtain
  split
  · exact ⟨rfl, fun _ _ => rfl⟩
  · exact ⟨rfl, fun _ _ => rfl⟩
  · exact ⟨keeps.instances formId world.device world.far,
      spares formId world.device world.far⟩
  · have dropped := (Device.delete_forms_instances world.device formId).1
    have files : (world.device.deleteForms formId).2.files = world.device.files := by
      rcases Device.delete_forms_cases world.device formId with same | same <;> rw [same]
    unfold repair World.onDevice
    dsimp only
    split
    · exact ⟨dropped, fun _ _ => by rw [files]⟩
    · constructor
      · exact (keeps.instances formId _ world.far).trans dropped
      · intro location spare
        exact (spares formId _ world.far location spare).trans (by rw [files])

theorem device_show_blank (services : FormServices σ) (obtained : Answer Form × World σ) :
    (showBlank services obtained).2.device = obtained.2.device := by
  unfold showBlank
  split <;> rfl

theorem open_form_loses {services : FormServices σ} {spared : Location → Prop}
    (keeps : services.KeepsInstances) (spares : services.Spares spared) (formId : String)
    (world : World σ) :
    ∃ dropped, (∀ id ∈ dropped, world.device.HoldsDraft formId id) ∧
      ((∀ problem, (openForm services formId world).1 ≠ .error (.store problem)) →
        ∀ id, world.device.HoldsDraft formId id → id ∈ dropped) ∧
      (openForm services formId world).2.device.database.instances =
        world.device.database.instances.without dropped ∧
      ∀ location, spared location →
        (openForm services formId world).2.device.files.find? location =
            world.device.files.find? location ∨
          ∃ id ∈ dropped, ∃ row, world.device.row? id = some row ∧
            world.device.files.InDirectoryOf row.path location := by
  rcases discard_drafts_loses formId world with ⟨dropped, drafts, loses, all⟩
  unfold openForm
  dsimp only
  split
  · rename_i error ended
    refine ⟨dropped, drafts, ?_, loses.instances, fun location _ => loses.files location⟩
    intro unfailed
    apply all
    intro problem failed
    rw [ended] at failed
    cases failed
    exact unfailed problem rfl
  · rename_i ended
    rcases obtain_keeps keeps spares formId (discardDrafts formId world).2 with
      ⟨instances, files⟩
    rw [device_show_blank]
    refine ⟨dropped, drafts, ?_, instances.trans loses.instances, ?_⟩
    · intro _
      apply all
      intro problem failed
      rw [ended] at failed
      cases failed
    · intro location spare
      rw [files location spare]
      exact loses.files location

/-- A form that could not be opened has lost nothing but drafts: all of them if its download or its
launch failed, and those that were deleted until then if a store did. The rows of all other
instances and every file that does not lie with a deleted draft are as before. -/
theorem failed_opening_loses_only_drafts (services : FormServices σ) (spared : Location → Prop)
    (keeps : services.KeepsInstances) (spares : services.Spares spared) (formId : String)
    (world : World σ) (error : OpeningError)
    (failed : (openForm services formId world).1 = .error error) :
    ∃ dropped, (∀ id ∈ dropped, world.device.HoldsDraft formId id) ∧
      ((∀ problem, error ≠ .store problem) →
        ∀ id, world.device.HoldsDraft formId id → id ∈ dropped) ∧
      (openForm services formId world).2.device.database.instances =
        world.device.database.instances.without dropped ∧
      ∀ location, spared location →
        (openForm services formId world).2.device.files.find? location =
            world.device.files.find? location ∨
          ∃ id ∈ dropped, ∃ row, world.device.row? id = some row ∧
            world.device.files.InDirectoryOf row.path location := by
  rcases open_form_loses keeps spares formId world with ⟨dropped, drafts, all, instances, files⟩
  refine ⟨dropped, drafts, ?_, instances, files⟩
  intro other
  apply all
  intro problem same
  rw [failed] at same
  exact other problem (Except.error.inj same)

/-- Services that have no form and show none. -/
def closedServices : FormServices Unit where
  download formId device far := ⟨.error (.notFound formId), [], device, far⟩
  downloadRequired device far := ⟨.error .cancelled, [], device, far⟩
  launch _ far := (.error "unavailable", far)

theorem closed_services_keep_instances : closedServices.KeepsInstances where
  instances _ _ _ := rfl
  outages _ _ _ := rfl

theorem closed_services_spare (spared : Location → Prop) : closedServices.Spares spared :=
  fun _ _ _ _ _ => rfl

/-- A draft with its file, and a finalized instance of the same form. -/
def draftWorld : World Unit where
  device :=
    Run.deviceWith
      [{ Run.waitingInstance "well" "/well/1.xml" with status := .incomplete },
        Run.waitingInstance "well" "/done/2.xml"]
      { nodes := [(["well"], .directory true), (["well", "1.xml"], .file [60])] }
  far := ()

/-- A draft is lost to an opening that shows nothing. -/
theorem draft_lost_to_failed_opening :
    ¬ ∀ (services : FormServices Unit) (formId : String) (world : World Unit)
      (error : OpeningError), services.KeepsInstances → services.Spares (fun _ => True) →
      (openForm services formId world).1 = .error error →
      (openForm services formId world).2.device.database.instances =
          world.device.database.instances ∧
        ∀ location, (openForm services formId world).2.device.files.find? location =
          world.device.files.find? location := by
  intro unharmed
  have kept := (unharmed closedServices "well" draftWorld (.downloadFailed (.notFound "well"))
    closed_services_keep_instances (closed_services_spare _) (by decide +kernel)).2
    ["well", "1.xml"]
  revert kept
  decide +kernel

theorem closed_services_lose_the_draft :
    (openForm closedServices "well" draftWorld).1 =
        .error (.downloadFailed (.notFound "well")) ∧
      ∃ dropped, 1 ∈ dropped ∧ 2 ∉ dropped ∧
        (openForm closedServices "well" draftWorld).2.device.database.instances =
          draftWorld.device.database.instances.without dropped := by
  have failed : (openForm closedServices "well" draftWorld).1 =
      .error (.downloadFailed (.notFound "well")) := by decide +kernel
  rcases failed_opening_loses_only_drafts closedServices (fun _ => True)
    closed_services_keep_instances (closed_services_spare _) "well" draftWorld _ failed with
    ⟨dropped, drafts, all, instances, _⟩
  refine ⟨failed, dropped, ?_, ?_, instances⟩
  · apply all nofun
    exact ⟨_, rfl, rfl, rfl⟩
  · intro member
    rcases drafts 2 member with ⟨row, found, _, status⟩
    cases found
    revert status
    decide +kernel

end Opening

end FieldPost
