import FieldPost.Proofs.Isolation

/-!
Which files go. Deleting an instance removes the directory of its payload with all that lies in
or below it, and no other file; in a run this happens only to instances that were accepted. Two
instances that share a directory therefore lose their payloads together. Each instance is meant
to have a directory of its own, and no call checks it.
-/

namespace FieldPost

variable {σ : Type}

/-- A location lies in or below the directory that a payload lies in. -/
def FileTree.InDirectoryOf (files : FileTree) (payload : String) (location : Location) : Prop :=
  ∃ directory place writable, Path.parent? payload = some directory ∧
    files.stat directory = .ok (place, .directory writable) ∧ place <+: location

theorem FileTree.Shrinks.in_directory {before after : FileTree}
    (shrinks : FileTree.Shrinks before after) {payload : String} {location : Location}
    (inside : after.InDirectoryOf payload location) : before.InDirectoryOf payload location := by
  rcases inside with ⟨directory, place, writable, parent, named, within⟩
  exact ⟨directory, place, writable, parent, shrinks.stat named, within⟩

namespace Device

theorem remove_files_cases (device : Device) (filled : Instance) (location : Location) :
    (device.removeInstanceFiles filled).files.find? location = device.files.find? location ∨
      device.files.InDirectoryOf filled.path location := by
  unfold removeInstanceFiles
  cases parent : filled.directory? with
  | none => exact .inl rfl
  | some directory =>
      dsimp only
      rcases FileTree.remove_directory_cases device.files directory with
        same | ⟨place, writable, named, pruned⟩
      · rw [same]
        exact .inl rfl
      · by_cases within : place <+: location
        · exact .inr ⟨directory, place, writable, parent, named, within⟩
        · rw [pruned, FileTree.find_prune_outside _ within]
          exact .inl rfl

/-- A call to delete removes nothing outside the directory of the instance it deletes. -/
theorem delete_instance_files (device : Device) (id : Int) (location : Location) :
    (device.deleteInstance id).2.files.find? location = device.files.find? location ∨
      ∃ row, device.row? id = some row ∧ (device.deleteInstance id).2.row? id = none ∧
        device.files.InDirectoryOf row.path location := by
  rcases delete_instance_cases device id with nothing | ⟨row, filled, found, read, deleted⟩
  · rw [nothing]
    exact .inl rfl
  · have path := InstanceRow.path_of_read read
    have gone : (device.withoutInstance filled).row? id = none := by
      rw [row_without_instance, if_pos (InstanceRow.id_of_read read).symm]
    rw [deleted]
    rcases remove_files_cases { device with
        database := { device.database with
          instances := device.database.instances.erase filled.id } } filled location with
      same | inside
    · exact .inl same
    · exact .inr ⟨row, found, gone, path ▸ inside⟩

theorem path_update_status (device : Device) (id : Int) (status : Status) {other : Int}
    {row : InstanceRow} (found : (device.updateStatus id status).2.row? other = some row) :
    ∃ old, device.row? other = some old ∧ row.path = old.path := by
  rcases update_status_cases device id status with failed | ⟨_, _, _, _, _, written⟩
  · rw [failed, row_ticked] at found
    exact ⟨row, found, rfl⟩
  · rw [written, row_with_status] at found
    split at found
    · obtain ⟨old, present, rfl⟩ := Option.map_eq_some_iff.mp found
      exact ⟨old, present, rfl⟩
    · exact ⟨row, found, rfl⟩

end Device

namespace Run

section

variable (settings : Settings) (uploaders : Uploaders σ) (route : Route)

/-- A turn removes nothing outside the directory of its instance, and nothing at all unless the
instance was accepted and deleted. -/
theorem turn_files {world : World σ} {filled : Instance} {row : InstanceRow}
    (stored : world.device.row? filled.id = some row) (location : Location) :
    (sendOne settings uploaders route world filled).2.device.files.find? location =
        world.device.files.find? location ∨
      (∃ url message, (sendOne settings uploaders route world filled).2.events =
        world.events ++ [.sent filled.id url (.ok message), countedEvent route filled]) ∧
      (sendOne settings uploaders route world filled).2.device.row? filled.id = none ∧
      world.device.files.InDirectoryOf row.path location := by
  have course := course_of_turn settings uploaders route world filled
  generalize sendOne settings uploaders route world filled = sent at course ⊢
  cases course with
  | undestined error wanted =>
      left
      exact congrArg (FileTree.find? · location) (Device.files_update_status _ _ _)
  | notSheet url wanted stays => exact .inl rfl
  | refused url error wanted leaves answer =>
      left
      exact congrArg (FileTree.find? · location) (Device.files_update_status _ _ _)
  | accepted url message wanted leaves answer =>
      have told := accepted_events settings uploaders route world filled url
      rw [answer, List.append_assoc] at told
      have marked := Device.files_update_status world.device filled.id .submitted
      rcases delete_if_wanted_device settings
        (handedAndMarked uploaders route world filled url .submitted) filled with kept | gone
      · left
        rw [← marked]
        exact congrArg (FileTree.find? · location) (congrArg Device.files kept)
      · rcases Device.delete_instance_files
          (world.device.updateStatus filled.id .submitted).2 filled.id location with
          same | ⟨later, found, removed, inside⟩
        · left
          rw [marked] at same
          exact (congrArg (FileTree.find? · location) (congrArg Device.files gone)).trans same
        · right
          obtain ⟨old, present, path⟩ := Device.path_update_status _ _ _ found
          rw [stored] at present
          cases present
          rw [marked, path] at inside
          exact ⟨⟨url, message, told⟩, (congrArg (Device.row? · filled.id) gone).trans removed,
            inside⟩

/-- What a run takes away, one of its turns takes away. -/
theorem turn_of_lost_file {world : World σ} {candidates : List Instance} {location : Location}
    (lost : (worldAfter settings uploaders route world candidates).device.files.find? location ≠
      world.device.files.find? location) :
    ∃ turn ∈ turns settings uploaders route world candidates,
      turn.after.device.files.find? location ≠ turn.before.device.files.find? location := by
  induction candidates generalizing world with
  | nil => exact absurd rfl lost
  | cons filled rest induction =>
      by_cases here :
          (sendOne settings uploaders route world filled).2.device.files.find? location =
            world.device.files.find? location
      · rw [world_after_cons, ← here] at lost
        obtain ⟨turn, member, takes⟩ := induction lost
        exact ⟨turn, List.mem_cons_of_mem _ member, takes⟩
      · exact ⟨_, List.mem_cons_self, here⟩

theorem world_after_files {world : World σ} {candidates : List Instance} {location : Location}
    (waiting : Selection.Waiting world.device candidates)
    (lost : (worldAfter settings uploaders route world candidates).device.files.find? location ≠
      world.device.files.find? location) :
    ∃ filled ∈ candidates, (∃ turn ∈ turns settings uploaders route world candidates,
        turn.filled = filled ∧ ∃ url message, .sent filled.id url (.ok message) ∈ turn.told) ∧
      (worldAfter settings uploaders route world candidates).device.row? filled.id = none ∧
      world.device.files.InDirectoryOf filled.path location := by
  obtain ⟨turn, member, takes⟩ := turn_of_lost_file settings uploaders route lost
  obtain ⟨early, late, split, before, sent, _⟩ := turn_splits settings uploaders route member
  obtain ⟨opens, closes⟩ := turn_frame settings uploaders route waiting.ascending member
  have candidate : turn.filled ∈ candidates := by simp [split]
  obtain ⟨row, found, read⟩ := waiting.stored turn.filled candidate
  have stored := opens.own_row.trans found
  have files := turn_files settings uploaders route stored location
  rw [sent] at files
  rcases files with same | ⟨⟨url, message, told⟩, gone, inside⟩
  · exact absurd same takes
  · refine ⟨turn.filled, candidate, ⟨turn, member, rfl, url, message, ?_⟩, ?_, ?_⟩
    · rw [Turn.told_eq told]
      exact List.mem_cons_self
    · exact closes.own_row.trans gone
    · rw [before, ← InstanceRow.path_of_read read] at inside
      exact (world_after_shrinks settings uploaders route world early).in_directory inside

end

end Run

/-- The payload of a stored instance, as a file or a locked file, lies at this location. -/
def Device.PayloadAt (device : Device) (id : Int) (location : Location) (node : Node) : Prop :=
  ∃ row, device.row? id = some row ∧ device.files.stat row.path = .ok (location, node)

theorem FileTree.find_of_stat {tree : FileTree} {path : String} {location : Location}
    {node : Node} (named : tree.stat path = .ok (location, node)) :
    tree.find? location = some node := by
  rcases (Answers.bind_eq_ok_iff _ _ _).mp named with ⟨reached, _, checked⟩
  cases found : tree.find? reached with
  | none => simp [found] at checked
  | some there =>
      rw [found] at checked
      cases there with
      | directory writable =>
          cases checked
          exact found
      | file content =>
          dsimp only at checked
          split at checked
          · cases checked
          · cases checked
            exact found
      | lockedFile =>
          dsimp only at checked
          split at checked
          · cases checked
          · cases checked
            exact found

/-- A payload disappears only when it lies in or below the directory of an instance that was
deleted. A call to delete deletes none but the instance it names, and a run none but those that
it sent and that were accepted. -/
theorem payload_gone_only_with_directory (stored : Int) (location : Location) (node : Node) :
    (∀ (device : Device) (id : Int), device.PayloadAt stored location node →
      (device.deleteInstance id).2.files.find? location ≠ some node →
      ∃ row, device.row? id = some row ∧ (device.deleteInstance id).2.row? id = none ∧
        device.files.InDirectoryOf row.path location) ∧
    ∀ (around : Surroundings) (uploaders : Uploaders σ) (world : World σ),
      world.device.PayloadAt stored location node →
      (Run.execute around uploaders world).2.device.files.find? location ≠ some node →
      ∃ id row told, world.device.row? id = some row ∧
        (Run.execute around uploaders world).2.events = world.events ++ told ∧
        (∃ url message, .sent id url (.ok message) ∈ told) ∧
        (Run.execute around uploaders world).2.device.row? id = none ∧
        world.device.files.InDirectoryOf row.path location := by
  constructor
  · rintro device id ⟨row, _, named⟩ lost
    rcases device.delete_instance_files id location with same | gone
    · rw [same] at lost
      exact absurd (FileTree.find_of_stat named) lost
    · exact gone
  · rintro around uploaders world ⟨row, _, named⟩ lost
    have there := FileTree.find_of_stat named
    have execution := Run.execution_of_run around uploaders world
    generalize Run.execute around uploaders world = ended at execution lost ⊢
    rcases ended with ⟨outcome, after⟩
    cases execution with
    | idle _ notices unfinished => exact absurd there lost
    | sent candidates selected summary results =>
        have waiting := Selection.waiting_of_instances selected
        obtain ⟨filled, candidate, ⟨turn, member, rfl, url, message, accepted⟩, gone, inside⟩ :=
          Run.world_after_files around.settings uploaders (.ofSettings around.settings)
            (show Selection.Waiting (Run.begun around world).device candidates from waiting)
            (fun kept => lost (kept.trans there))
        obtain ⟨own, found, read⟩ := waiting.stored turn.filled candidate
        have path := InstanceRow.path_of_read read
        refine ⟨turn.filled.id, own, _, found, Run.completed_events _ _ _ _ _,
          ⟨url, message, ?_⟩, gone, path ▸ inside⟩
        apply List.mem_append_left
        apply List.mem_append_right
        exact List.mem_flatMap.mpr ⟨turn, member, accepted⟩

/-- Two instances that wait, with their payloads in one directory. -/
def sharedDevice : Device :=
  Run.deviceWith
    [Run.waitingInstance "well" "/shared/1.xml", Run.waitingInstance "pump" "/shared/2.xml"]
    { nodes :=
        [(["shared"], .directory true), (["shared", "1.xml"], .file [60]),
          (["shared", "2.xml"], .file [62])] }

theorem shared_device_payload :
    sharedDevice.PayloadAt 2 ["shared", "2.xml"] (.file [62]) :=
  ⟨.ofInstance (Run.waitingInstance "pump" "/shared/2.xml"), by decide +kernel, by rfl⟩

/-- A payload need not be that of the instance that is deleted. -/
theorem shared_directory_loses_payload :
    ¬ ∀ (device : Device) (id stored : Int) (location : Location) (node : Node),
      device.PayloadAt stored location node →
      (device.deleteInstance id).2.files.find? location ≠ some node → id = stored := by
  intro only
  have same := only sharedDevice 1 2 ["shared", "2.xml"] (.file [62]) shared_device_payload
    (by decide +kernel)
  cases same

theorem shared_payload_gone_with_directory :
    (∃ row, sharedDevice.row? 1 = some row ∧
      (sharedDevice.deleteInstance 1).2.row? 1 = none ∧
      sharedDevice.files.InDirectoryOf row.path ["shared", "2.xml"]) ∧
    ∃ id row told, sharedDevice.row? id = some row ∧
      (Run.execute Run.rehearsedSurroundings (Rehearsal.uploaders [])
        { Run.rehearsedWorld with device := sharedDevice }).2.events = [] ++ told ∧
      (∃ url message, .sent id url (.ok message) ∈ told) ∧
      sharedDevice.files.InDirectoryOf row.path ["shared", "2.xml"] := by
  obtain ⟨deleted, sent⟩ := payload_gone_only_with_directory (σ := Rehearsal.Stage) 2
    ["shared", "2.xml"] (.file [62])
  obtain ⟨id, row, told, found, events, accepted, _, inside⟩ :=
    sent Run.rehearsedSurroundings (Rehearsal.uploaders [])
      { Run.rehearsedWorld with device := sharedDevice } shared_device_payload
      (by decide +kernel)
  exact ⟨deleted sharedDevice 1 shared_device_payload (by decide +kernel),
    id, row, told, found, events, accepted, inside⟩

end FieldPost
