import FieldPost.Proofs.Moves

/-!
The way of an instance through the table: it is given an identifier, its status changes by steps
of the life-cycle, and it is gone. An identifier is never given out again, and a status that is
refused changes nothing. All of this holds between any two points of a history, whatever runs,
openings and calls of the store lie between them.
-/

namespace FieldPost

variable {σ : Type}

namespace Status

theorem text_of_ofText? {name : String} {status : Status} (known : ofText? name = some status) :
    status.text = name := by
  have same := List.find?_some known
  simpa using same

theorem text_injective {left right : Status} (same : left.text = right.text) : left = right := by
  have known := congrArg ofText? same
  rw [ofText?_text, ofText?_text] at known
  exact Option.some.inj known

end Status

/-- What the table of instances knows of an identifier: that it was not given out yet, that it has
a row with a status, or that its row is gone. -/
inductive Stage
  | unissued
  | stored (status : String)
  | gone
deriving DecidableEq, Repr

namespace Stage

inductive Next : Stage → Stage → Prop
  | issue (status : Status) : Next .unissued (.stored status.text)
  | change {before after : Status} (allowed : before.mayBecome after = true) :
      Next (.stored before.text) (.stored after.text)
  | remove (status : String) : Next (.stored status) .gone

abbrev Path (early later : Stage) : Prop := Relation.ReflTransGen Next early later

/-- The instance was finalized once, whatever became of it. -/
def LeftIncomplete : Stage → Prop
  | .unissued => False
  | .stored status => status ≠ Status.incomplete.text
  | .gone => True

theorem left_incomplete_of_path {early later : Stage} (path : Path early later)
    (left : early.LeftIncomplete) : later.LeftIncomplete := by
  induction path with
  | refl => exact left
  | tail _ next induction =>
      cases next with
      | issue status => exact induction.elim
      | remove status => trivial
      | @change before after allowed =>
          intro back
          cases Status.text_injective back
          -- Only an incomplete instance may be kept incomplete.
          cases before <;> first | exact induction rfl | cases allowed

theorem submitted_of_path {later : Stage} (path : Path (.stored Status.submitted.text) later) :
    later = .stored Status.submitted.text ∨ later = .gone := by
  induction path with
  | refl => exact .inl rfl
  | @tail middle last _ next induction =>
      rcases induction with rfl | rfl
      · generalize held : Stage.stored Status.submitted.text = stage at next
        cases next with
        | issue status => cases held
        | remove status => exact .inr rfl
        | @change before after allowed =>
            cases Status.text_injective (Stage.stored.inj held)
            cases after <;> first | exact .inl rfl | cases allowed
      · cases next

end Stage

namespace Device

def stage (device : Device) (id : Int) : Stage :=
  match device.row? id with
  | some row => .stored row.status
  | none => if device.database.instances.lastId < id then .unissued else .gone

theorem stage_of_row {device : Device} {id : Int} {row : InstanceRow}
    (found : device.row? id = some row) : device.stage id = .stored row.status := by
  unfold stage
  rw [found]

theorem stage_of_no_row {device : Device} {id : Int} (missing : device.row? id = none) :
    device.stage id = if device.database.instances.lastId < id then .unissued else .gone := by
  unfold stage
  rw [missing]

theorem stage_of_same {first second : Device}
    (same : second.database.instances = first.database.instances) (id : Int) :
    second.stage id = first.stage id := by
  unfold stage row?
  rw [same]

theorem ChangesOnly.stage {touched : Int → Prop} {before after : Device} {id : Int}
    (changes : ChangesOnly touched before after) (outside : ¬ touched id) :
    after.stage id = before.stage id := by
  unfold Device.stage
  rw [changes.rows id outside, changes.last]

theorem le_last_of_issued {device : Device} {id : Int} (issued : device.stage id ≠ .unissued) :
    id ≤ device.database.instances.lastId := by
  cases found : device.row? id with
  | some row => exact Table.le_last_of_find found
  | none =>
      rw [stage_of_no_row found] at issued
      by_contra later
      exact issued (if_pos (by omega))

/-! ### What one move does -/

theorem path_of_insert (device : Device) (filled : Instance) (id : Int) :
    Stage.Path (device.stage id) ((device.insertInstance filled).2.stage id) := by
  rcases insert_instance_cases device filled with nothing | inserted
  · rw [nothing]
  rw [inserted]
  have row : ∀ other, Device.row? { device with
        database := { device.database with
          instances := device.database.instances.insert (.ofInstance filled) } } other =
      if other = device.database.instances.nextId then some (.ofInstance filled)
      else device.row? other := Table.find_insert _ _
  by_cases fresh : id = device.database.instances.nextId
  · have unused : device.stage id = .unissued := by
      rw [stage_of_no_row (by rw [fresh]; exact Table.find_next _), if_pos]
      rw [fresh, Table.nextId]
      omega
    rw [unused, stage_of_row (by rw [row, if_pos fresh])]
    exact .single (.issue filled.status)
  · have same : Device.stage { device with
          database := { device.database with
            instances := device.database.instances.insert (.ofInstance filled) } } id =
        device.stage id := by
      unfold stage
      rw [row, if_neg fresh, Table.lastId_insert]
      rw [Table.nextId] at fresh
      have later : device.database.instances.lastId + 1 < id ↔
          device.database.instances.lastId < id := by omega
      simp only [later]
    rw [same]

theorem path_of_update (device : Device) (changed : Int) (status : Status) (id : Int) :
    Stage.Path (device.stage id) ((device.updateStatus changed status).2.stage id) := by
  by_cases own : id = changed
  · subst own
    rcases update_status_cases device id status with
      failed | ⟨row, before, found, known, allowed, written⟩
    · have same : device.ticked.database.instances = device.database.instances := rfl
      rw [failed, stage_of_same same]
    · rw [written, stage_of_row found, ← Status.text_of_ofText? known,
        stage_of_row (show (device.withStatus id status).row? id =
          some (Database.changeStatus status device.clock row) by
            rw [row_with_status, if_pos rfl, found]
            rfl)]
      exact .single (.change allowed)
  · rw [(update_status_changes device changed status).stage own]

theorem path_of_delete (device : Device) (deleted id : Int) :
    Stage.Path (device.stage id) ((device.deleteInstance deleted).2.stage id) := by
  have changes := delete_instance_changes device deleted
  by_cases own : id = deleted
  · subst own
    rcases delete_instance_cases device id with nothing | ⟨row, filled, found, read, gone⟩
    · rw [nothing]
    · have issued := Table.le_last_of_find found
      have missing : (device.deleteInstance id).2.row? id = none := by
        rw [gone, row_without_instance, if_pos (InstanceRow.id_of_read read).symm]
      rw [stage_of_row found, stage_of_no_row missing, changes.last, if_neg (by omega)]
      exact .single (.remove row.status)
  · rw [changes.stage own]

theorem path_of_move {before after : Device} (move : Move before after) (id : Int) :
    Stage.Path (before.stage id) (after.stage id) := by
  cases move with
  | insert filled => exact path_of_insert before filled id
  | update changed status => exact path_of_update before changed status id
  | delete deleted => exact path_of_delete before deleted id
  | elsewhere same => rw [stage_of_same same]

theorem last_of_move {before after : Device} (move : Move before after) :
    before.database.instances.lastId ≤ after.database.instances.lastId := by
  cases move with
  | insert filled =>
      rcases insert_instance_cases before filled with nothing | inserted
      · exact Int.le_of_eq (by rw [nothing])
      · rw [inserted, Table.lastId_insert]
        omega
  | update changed status =>
      exact Int.le_of_eq (update_status_changes before changed status).last.symm
  | delete deleted => exact Int.le_of_eq (delete_instance_changes before deleted).last.symm
  | elsewhere same => exact Int.le_of_eq (by rw [same])

/-! ### What a history does -/

theorem path_of_reaches {early later : Device} (reaches : early.Reaches later) (id : Int) :
    Stage.Path (early.stage id) (later.stage id) := by
  induction reaches with
  | refl => exact .refl
  | tail _ move induction => exact induction.trans (path_of_move move id)

theorem last_of_reaches {early later : Device} (reaches : early.Reaches later) :
    early.database.instances.lastId ≤ later.database.instances.lastId := by
  induction reaches with
  | refl => exact Int.le_refl _
  | tail _ move induction => exact Int.le_trans induction (last_of_move move)

theorem id_of_insert {device : Device} {filled : Instance} {id : Int}
    (answered : (device.insertInstance filled).1 = .ok id) :
    id = device.database.instances.lastId + 1 := by
  have inserted : device.insertInstance filled =
      device.commit (device.reach .insertInstance (device.database.insertInstance filled)) := rfl
  rw [inserted] at answered
  cases reached : device.reach .insertInstance (device.database.insertInstance filled) with
  | error error =>
      rw [reached] at answered
      cases answered
  | ok changed =>
      rw [reached] at answered
      rcases (reach_eq_ok_iff _ _ _ _).mp reached with ⟨_, added⟩
      rcases (Answers.bind_eq_ok_iff _ _ _).mp added with ⟨_, _, same⟩
      cases same
      exact (Except.ok.inj answered).symm

/-- A status that is not taken leaves the tables as they are. -/
theorem refused_update {device : Device} {id : Int} {status : Status} {error : StoreError}
    (refused : (device.updateStatus id status).1 = .error error) :
    (device.updateStatus id status).2.database = device.database := by
  have reached : device.updateStatus id status =
      device.ticked.commit (device.reach .updateStatus
        ((device.database.updateStatus id status device.clock).map fun database =>
          ((), database))) := rfl
  rw [reached] at refused ⊢
  cases answer : device.reach .updateStatus
      ((device.database.updateStatus id status device.clock).map fun database =>
        ((), database)) with
  | error error => dsimp only [commit, ticked]
  | ok changed =>
      rw [answer] at refused
      cases refused

/-- What holds between an earlier and a later state of one device. -/
structure Follows (early later : Device) : Prop where
  path : ∀ id, Stage.Path (early.stage id) (later.stage id)
  forward : ∀ id, (early.stage id).LeftIncomplete →
    later.stage id ≠ .stored Status.incomplete.text
  submitted : ∀ id, early.stage id = .stored Status.submitted.text →
    later.stage id = .stored Status.submitted.text ∨ later.stage id = .gone
  fresh : ∀ filled id issued, (later.insertInstance filled).1 = .ok id →
    early.stage issued ≠ .unissued → issued < id

theorem follows_of_reaches {early later : Device} (reaches : early.Reaches later) :
    Follows early later where
  path := path_of_reaches reaches
  forward id left back := by
    have still := Stage.left_incomplete_of_path (path_of_reaches reaches id) left
    rw [back] at still
    exact still rfl
  submitted id held := by
    have path := path_of_reaches reaches id
    rw [held] at path
    exact Stage.submitted_of_path path
  fresh filled id issued answered known := by
    have next := id_of_insert answered
    have last := last_of_reaches reaches
    have below := le_last_of_issued known
    omega

end Device

namespace Deed

theorem play_append (world : World σ) (early late : List (Deed σ)) :
    play world (early ++ late) = play (play world early) late :=
  List.foldl_append

/-- Between any two points of a history the statuses of every instance form a path of the
life-cycle, so what was finalized is never incomplete again and what was submitted stays so until
it is deleted; an identifier that is given out is greater than all that were given out before; and
a status that is refused leaves the tables as they are. -/
theorem statuses_follow_life_cycle (world : World σ) (deeds : List (Deed σ))
    (calls : ∀ deed ∈ deeds, deed.CallsStores) (early later : List (Deed σ))
    (first : early <+: later) (within : later <+: deeds) :
    Device.Follows (play world early).device (play world later).device ∧
      ∀ id status error,
        ((play world later).device.updateStatus id status).1 = .error error →
        ((play world later).device.updateStatus id status).2.database =
          (play world later).device.database := by
  constructor
  · obtain ⟨between, rfl⟩ := first
    rw [play_append]
    apply Device.follows_of_reaches
    apply reaches_play
    intro deed member
    exact calls deed (within.subset (List.mem_append_right early member))
  · intro id status error refused
    exact Device.refused_update refused

end Deed

/-- An instance is stored on an empty device and sent by a run that deletes what it has sent; then
the forms that are required are fetched, and another instance is stored. -/
def rehearsedDeeds : List (Deed Rehearsal.Stage) :=
  [.act (.insert (Run.waitingInstance "well" "/well/1.xml")),
    .act (.run Run.rehearsedSurroundings (Rehearsal.uploaders [])),
    .prepare Rehearsal.services,
    .act (.insert (Run.waitingInstance "pump" "/pump/2.xml"))]

def emptyWorld : World Rehearsal.Stage where
  device := Run.deviceWith [] {}
  far := {}

theorem rehearsed_deeds_follow_life_cycle :
    (Deed.play emptyWorld rehearsedDeeds).device.stage 1 = .gone ∧
      (Deed.play emptyWorld rehearsedDeeds).device.stage 2 = .stored Status.complete.text ∧
      Device.Follows (Deed.play emptyWorld (rehearsedDeeds.take 1)).device
        (Deed.play emptyWorld rehearsedDeeds).device := by
  have calls : ∀ deed ∈ rehearsedDeeds, deed.CallsStores := by
    simp [rehearsedDeeds, Deed.CallsStores, Rehearsal.services_call_stores]
  exact ⟨by decide +kernel, by decide +kernel,
    (Deed.statuses_follow_life_cycle emptyWorld rehearsedDeeds calls (rehearsedDeeds.take 1)
      rehearsedDeeds (List.take_prefix 1 _) List.prefix_rfl).1⟩

end FieldPost
