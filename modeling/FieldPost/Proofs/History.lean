import FieldPost.Opening
import FieldPost.Proofs.Isolation

/-!
Histories of one store. Runs, openings and calls of the store follow each other in any order,
each with its own settings and its own far side, while files, forms and the time change in
between. An instance that was accepted is submitted or gone from then on, and neither is ever
selected again, so nothing is accepted twice. The store has to be in reach for changes of status:
an acceptance that cannot be written down is forgotten. A store over the database always is; only
one of another kind, in its place, may not be.
-/

namespace FieldPost

variable {σ α : Type}

/-- The identifier was given out, and its row is gone or submitted. -/
def Device.isFinished (device : Device) (id : Int) : Bool :=
  match device.row? id with
  | some row => row.status == Status.submitted.text
  | none => id ≤ device.database.instances.lastId

def Event.isAcceptance (id : Int) : Event → Bool
  | .sent instanceId _ (.ok _) => instanceId == id
  | _ => false

def acceptances (id : Int) (events : List Event) : Nat := events.countP (Event.isAcceptance id)

namespace Device

/-- What is finished before is finished after, and the store is as much in reach. -/
structure Finishes (id : Int) (before after : Device) : Prop where
  finished : before.isFinished id = true → after.isFinished id = true
  outages : after.outages = before.outages

namespace Finishes

variable {id : Int} {first second third : Device}

theorem refl (id : Int) (device : Device) : Finishes id device device := ⟨fun held => held, rfl⟩

theorem trans (early : Finishes id first second) (late : Finishes id second third) :
    Finishes id first third :=
  ⟨fun held => late.finished (early.finished held), late.outages.trans early.outages⟩

/-- Only what happens to the row and to the identifiers given out counts. -/
theorem of_same_instances (same : second.database.instances = first.database.instances)
    (outages : second.outages = first.outages) : Finishes id first second := by
  refine ⟨?_, outages⟩
  unfold isFinished row?
  rw [same]
  exact fun held => held

end Finishes

theorem finished_of_submitted {device : Device} {id : Int} {row : InstanceRow}
    (found : device.row? id = some row) (submitted : row.status = Status.submitted.text) :
    device.isFinished id = true := by
  unfold isFinished
  rw [found]
  simpa using submitted

theorem finished_of_gone {device : Device} {id : Int} (gone : device.row? id = none)
    (issued : id ≤ device.database.instances.lastId) : device.isFinished id = true := by
  unfold isFinished
  rw [gone]
  simpa using issued

theorem submitted_of_finished {device : Device} {id : Int} {row : InstanceRow}
    (finished : device.isFinished id = true) (found : device.row? id = some row) :
    row.status = Status.submitted.text := by
  unfold isFinished at finished
  rw [found] at finished
  simpa using finished

theorem issued_of_finished {device : Device} {id : Int} (finished : device.isFinished id = true) :
    id ≤ device.database.instances.lastId := by
  cases found : device.row? id with
  | some row => exact Table.le_last_of_find found
  | none =>
      unfold isFinished at finished
      rw [found] at finished
      simpa using finished

theorem ChangesOnly.finished {touched : Int → Prop} {before after : Device} {id : Int}
    (changes : ChangesOnly touched before after) (outside : ¬ touched id) :
    after.isFinished id = before.isFinished id := by
  unfold isFinished
  rw [changes.rows id outside, changes.last]

/-! ### Calls of the store -/

/-- Nothing leads out of submitted. -/
theorem finishes_update (device : Device) (id : Int) (status : Status) (other : Int) :
    Finishes other device (device.updateStatus id status).2 := by
  have changes := update_status_changes device id status
  refine ⟨?_, changes.outages⟩
  intro finished
  by_cases same : other = id
  · subst same
    rcases update_status_cases device other status with
      failed | ⟨row, before, found, known, allowed, written⟩
    · have ticked := ticked_changes (fun _ => False) device
      rw [failed, ticked.finished (fun touched => touched)]
      exact finished
    · have submitted := submitted_of_finished finished found
      rw [submitted, Status.ofText?_text] at known
      cases known
      -- A submitted row may only become submitted again.
      have kept : status = .submitted := by
        cases status <;> first | rfl | cases allowed
      subst kept
      apply finished_of_submitted
      · rw [written, row_with_status, if_pos rfl, found]
        rfl
      · rfl
  · rw [changes.finished same]
    exact finished

/-- The row of an instance that is deleted is gone, and its identifier stays given out. -/
theorem finishes_delete (device : Device) (id other : Int) :
    Finishes other device (device.deleteInstance id).2 := by
  have changes := delete_instance_changes device id
  refine ⟨?_, changes.outages⟩
  intro finished
  by_cases same : other = id
  · subst same
    rcases delete_instance_cases device other with nothing | ⟨row, filled, found, read, deleted⟩
    · rw [nothing]
      exact finished
    · apply finished_of_gone
      · rw [deleted, row_without_instance, if_pos (InstanceRow.id_of_read read).symm]
      · rw [changes.last]
        exact issued_of_finished finished
  · rw [changes.finished same]
    exact finished

/-- A new row gets an identifier that was never given out. -/
theorem finishes_insert (device : Device) (filled : Instance) (id : Int) :
    Finishes id device (device.insertInstance filled).2 := by
  rcases insert_instance_cases device filled with nothing | inserted
  · rw [nothing]
    exact .refl id device
  · rw [inserted]
    refine ⟨?_, rfl⟩
    intro finished
    have issued := issued_of_finished finished
    have old : id ≠ device.database.instances.nextId := by
      unfold Table.nextId
      omega
    unfold isFinished row? at finished ⊢
    rw [Table.find_insert, if_neg old, Table.lastId_insert]
    cases found : device.database.instances.find? id with
    | some row => rwa [found] at finished
    | none =>
        simp only [decide_eq_true_eq]
        omega

theorem finishes_delete_forms (device : Device) (formId : String) (id : Int) :
    Finishes id device (device.deleteForms formId).2 :=
  .of_same_instances (delete_forms_instances device formId).1
    (delete_forms_instances device formId).2

end Device

/-! ### Worlds -/

/-- 1 once an instance is finished, and 0 before. -/
def Device.spent (device : Device) (id : Int) : Nat := (device.isFinished id).toNat

/-- Acceptances are paid for: each one finishes an instance that was not finished before. -/
structure World.Balanced (id : Int) (before after : World σ) : Prop where
  paid : acceptances id after.events + before.device.spent id ≤
    acceptances id before.events + after.device.spent id
  told : before.events <+: after.events
  outages : after.device.outages = before.device.outages

namespace World.Balanced

variable {id : Int} {first second third : World σ}

theorem refl (id : Int) (world : World σ) : Balanced id world world :=
  ⟨Nat.le_refl _, List.prefix_rfl, rfl⟩

theorem trans (early : Balanced id first second) (late : Balanced id second third) :
    Balanced id first third where
  paid := by
    have before := early.paid
    have after := late.paid
    omega
  told := early.told.trans late.told
  outages := late.outages.trans early.outages

/-- Nothing is accepted while nothing finished is lost. -/
theorem of_finishes (finishes : Device.Finishes id first.device second.device)
    (events : List Event) (told : second.events = first.events ++ events)
    (quiet : acceptances id events = 0) : Balanced id first second where
  paid := by
    have kept : first.device.spent id ≤ second.device.spent id := by
      unfold Device.spent
      cases before : first.device.isFinished id with
      | false => exact Nat.zero_le _
      | true => exact Nat.le_of_eq (by rw [finishes.finished before])
    unfold acceptances at quiet ⊢
    rw [told, List.countP_append, quiet]
    omega
  told := by
    rw [told]
    exact List.prefix_append _ _
  outages := finishes.outages

theorem of_quiet (finishes : Device.Finishes id first.device second.device)
    (told : second.events = first.events) : Balanced id first second :=
  of_finishes finishes [] (by rw [told, List.append_nil]) rfl

/-- One acceptance is paid for when the instance becomes finished with it. -/
theorem of_acceptance (waits : first.device.isFinished id = false)
    (finished : second.device.isFinished id = true) (events : List Event)
    (told : second.events = first.events ++ events) (once : acceptances id events ≤ 1)
    (outages : second.device.outages = first.device.outages) : Balanced id first second where
  paid := by
    unfold Device.spent
    unfold acceptances at once ⊢
    rw [told, List.countP_append, waits, finished, Bool.toNat_false, Bool.toNat_true]
    omega
  told := by
    rw [told]
    exact List.prefix_append _ _
  outages := outages

/-- After a finished instance no acceptance comes any more, and before it at most one. -/
theorem bound (balanced : Balanced id first second) :
    acceptances id second.events + first.device.spent id ≤ acceptances id first.events + 1 := by
  have paid := balanced.paid
  have last : second.device.spent id ≤ 1 := Bool.toNat_le _
  omega

end World.Balanced

/-! ### Runs -/

namespace Run

/-- What waits to be sent is not finished. -/
theorem not_finished_of_ready {device : Device} {filled : Instance} {row : InstanceRow}
    (ready : Selection.Ready device filled row) : device.isFinished filled.id = false := by
  cases finished : device.isFinished filled.id with
  | false => rfl
  | true =>
      have submitted := Device.submitted_of_finished finished ready.found
      have known := InstanceRow.status_of_read ready.read
      have waits := ready.finalized
      rw [submitted, Status.ofText?_text] at known
      rw [← Option.some.inj known] at waits
      cases waits

section

variable (settings : Settings) (uploaders : Uploaders σ) (route : Route)

theorem finishes_delete_if_wanted (world : World σ) (filled : Instance) (id : Int) :
    Device.Finishes id world.device (deleteIfWanted settings world filled).device := by
  rcases delete_if_wanted_device settings world filled with kept | gone
  · rw [kept]
    exact .refl id world.device
  · rw [gone]
    exact Device.finishes_delete world.device filled.id id

/-- An instance that was marked as sent is finished, whether it is deleted afterwards or not. -/
theorem finished_of_accepted {world : World σ} {filled : Instance} {row : InstanceRow}
    (ready : Selection.Ready world.device filled row) (url : String) :
    (deleteIfWanted settings (handedAndMarked uploaders route world filled url .submitted)
      filled).device.isFinished filled.id = true := by
  apply (finishes_delete_if_wanted settings _ filled filled.id).finished
  rw [handed_device, ready.mark (.inl rfl)]
  apply Device.finished_of_submitted
  · rw [Device.row_with_status, if_pos rfl, ready.found]
    rfl
  · rfl

theorem balanced_turn {world : World σ} {filled : Instance} {row : InstanceRow}
    (ready : Selection.Ready world.device filled row) (id : Int) :
    World.Balanced id world (sendOne settings uploaders route world filled).2 := by
  have course := course_of_turn settings uploaders route world filled
  generalize sendOne settings uploaders route world filled = sent at course ⊢
  cases course with
  | undestined error wanted =>
      exact .of_quiet (Device.finishes_update _ _ _ id) rfl
  | notSheet url wanted stays => exact .refl id world
  | refused url error wanted leaves answer =>
      apply World.Balanced.of_finishes (Device.finishes_update _ _ _ id) _
        (handed_events uploaders route world filled url _)
      rw [answer]
      rfl
  | accepted url message wanted leaves answer =>
      have finishes : Device.Finishes id world.device _ :=
        (Device.finishes_update world.device filled.id .submitted id).trans
          (finishes_delete_if_wanted settings
            (handedAndMarked uploaders route world filled url .submitted) filled id)
      have told := accepted_events settings uploaders route world filled url
      rw [answer, List.append_assoc] at told
      -- An instance is accepted in no turn but its own, which finishes it.
      by_cases own : filled.id = id
      · subst own
        refine .of_acceptance (not_finished_of_ready ready)
          (finished_of_accepted settings uploaders route ready url) _ told ?_ finishes.outages
        simp [acceptances, Event.isAcceptance, countedEvent]
      · refine .of_finishes finishes _ told ?_
        simp [acceptances, Event.isAcceptance, countedEvent, own]

theorem balanced_world_after {world : World σ} {candidates : List Instance}
    (ascending : (candidates.map (·.id)).Pairwise (· < ·))
    (ready : ∀ filled ∈ candidates, ∃ row, Selection.Ready world.device filled row) (id : Int) :
    World.Balanced id world (worldAfter settings uploaders route world candidates) := by
  induction candidates generalizing world with
  | nil => exact .refl id world
  | cons filled rest induction =>
      rw [List.map_cons, List.pairwise_cons] at ascending
      obtain ⟨row, now⟩ := ready filled List.mem_cons_self
      have changes := turn_changes settings uploaders route world filled
      apply (balanced_turn settings uploaders route now id).trans
      -- The others are as ready as before: the turn touched no row but its own.
      apply induction ascending.2
      intro other member
      obtain ⟨otherRow, waits⟩ := ready other (List.mem_cons_of_mem _ member)
      have greater := ascending.1 other.id (List.mem_map.mpr ⟨other, member, rfl⟩)
      refine ⟨otherRow, waits.keep (changes.widen _ ?_)⟩
      intro touched same
      omega

end

theorem balanced_execute (around : Surroundings) (uploaders : Uploaders σ) {world : World σ}
    (updates : world.device.outages.lookup .updateStatus = none) (id : Int) :
    World.Balanced id world (execute around uploaders world).2 := by
  have execution := execution_of_run around uploaders world
  generalize execute around uploaders world = ended at execution ⊢
  rcases ended with ⟨outcome, after⟩
  cases execution with
  | idle _ notices unfinished =>
      refine .of_finishes (.refl id world.device) _ rfl ?_
      unfold acceptances
      rw [List.countP_map]
      exact List.countP_eq_zero.mpr (fun notice _ => Bool.false_ne_true)
  | sent candidates selected summary results =>
      have waiting := Selection.waiting_of_instances selected
      have begins : World.Balanced id world (begun around world) := by
        refine .of_finishes (.refl id world.device) _ rfl ?_
        unfold chosen
        split <;> rfl
      have turns := balanced_world_after around.settings uploaders (.ofSettings around.settings)
        waiting.ascending
        (show ∀ filled ∈ candidates, ∃ row,
            Selection.Ready (begun around world).device filled row from
          fun filled member => waiting.ready member updates) id
      apply (begins.trans turns).trans
      exact .of_finishes (.refl id _) _ rfl rfl

end Run

/-! ### Openings -/

/-- Downloading a form leaves the table of instances alone, and the stores as they are. -/
structure FormServices.KeepsInstances (services : FormServices σ) : Prop where
  instances : ∀ formId device far,
    (services.download formId device far).device.database.instances = device.database.instances
  outages : ∀ formId device far,
    (services.download formId device far).device.outages = device.outages

namespace Opening

theorem balanced_discard (world : World σ) (found : List Instance) (id : Int) :
    World.Balanced id world (discard world found).2 := by
  induction found generalizing world with
  | nil => exact .refl id world
  | cons draft rest induction =>
      have deleted : World.Balanced id world
          (world.onDevice fun device => device.deleteInstance draft.id).2 :=
        .of_quiet (Device.finishes_delete world.device draft.id id) rfl
      unfold discard
      cases answer : (world.onDevice fun device => device.deleteInstance draft.id).1 with
      | error error =>
          simp only [answer]
          exact deleted
      | ok done =>
          simp only [answer]
          exact deleted.trans (induction _)

theorem balanced_discard_drafts (formId : String) (world : World σ) (id : Int) :
    World.Balanced id world (discardDrafts formId world).2 := by
  unfold discardDrafts
  cases drafts world.device formId with
  | error error => exact .refl id world
  | ok found => exact balanced_discard world found id

theorem balanced_launch (services : FormServices σ) (wanted : Launch) (opened : Opened)
    (world : World σ) (id : Int) :
    World.Balanced id world (launch services wanted opened world).2 :=
  .of_finishes (.refl id world.device) [.launched wanted] rfl rfl

section

variable {services : FormServices σ} (keeps : services.KeepsInstances)

include keeps

theorem balanced_download (formId : String) (world : World σ) (id : Int) :
    World.Balanced id world (download services formId world).2 := by
  refine .of_finishes ?_ _ rfl ?_
  · exact .of_same_instances (keeps.instances formId world.device world.far)
      (keeps.outages formId world.device world.far)
  · unfold acceptances
    rw [List.countP_map]
    exact List.countP_eq_zero.mpr (fun event _ => Bool.false_ne_true)

theorem balanced_repair (formId : String) (world : World σ) (id : Int) :
    World.Balanced id world (repair services formId world).2 := by
  have dropped : World.Balanced id world
      (world.onDevice fun device => device.deleteForms formId).2 :=
    .of_quiet (Device.finishes_delete_forms world.device formId id) rfl
  unfold repair
  cases answer : (world.onDevice fun device => device.deleteForms formId).1 with
  | error error =>
      simp only [answer]
      exact dropped
  | ok count =>
      simp only [answer]
      exact dropped.trans (balanced_download keeps formId _ id)

theorem balanced_obtain (formId : String) (world : World σ) (id : Int) :
    World.Balanced id world (obtain services formId world).2 := by
  unfold obtain
  cases cacheState world.device formId with
  | error error => exact .refl id world
  | ok state =>
      cases state with
      | valid form => exact .refl id world
      | absent => exact balanced_download keeps formId world id
      | corrupt form => exact balanced_repair keeps formId world id

theorem balanced_open_form (formId : String) (world : World σ) (id : Int) :
    World.Balanced id world (openForm services formId world).2 := by
  have discarded := balanced_discard_drafts formId world id
  unfold openForm
  cases answer : (discardDrafts formId world).1 with
  | error error =>
      simp only [answer]
      exact discarded
  | ok done =>
      simp only [answer]
      have obtained := balanced_obtain keeps formId (discardDrafts formId world).2 id
      apply (discarded.trans obtained).trans
      unfold showBlank
      cases form : (obtain services formId (discardDrafts formId world).2).1 with
      | error error => exact .refl id _
      | ok form => exact balanced_launch services _ _ _ id

theorem balanced_open_saved_form (formId : String) (world : World σ) (id : Int) :
    World.Balanced id world (openSavedForm services formId world).2 := by
  unfold openSavedForm
  cases drafts world.device formId with
  | error error => exact .refl id world
  | ok found =>
      dsimp only
      cases latest found with
      | none => exact balanced_open_form keeps formId world id
      | some draft => exact balanced_launch services _ _ world id

end

end Opening

/-! ### Histories -/

/-- What can happen to a store: calls of it, runs and openings, each with whatever surrounds it.
In between, files, forms, the time and the far side change on their own. -/
inductive Act (σ : Type)
  | insert (filled : Instance)
  | update (id : Int) (status : Status)
  | delete (id : Int)
  | run (around : Surroundings) (uploaders : Uploaders σ)
  | openForm (services : FormServices σ) (formId : String)
  | openSavedForm (services : FormServices σ) (formId : String)
  | elsewhere (files : FileTree) (forms : Table FormRow) (clock : Moment) (far : σ)

namespace Act

def perform (world : World σ) : Act σ → World σ
  | .insert filled => (world.onDevice fun device => device.insertInstance filled).2
  | .update id status => (world.onDevice fun device => device.updateStatus id status).2
  | .delete id => (world.onDevice fun device => device.deleteInstance id).2
  | .run around uploaders => (Run.execute around uploaders world).2
  | .openForm services formId => (Opening.openForm services formId world).2
  | .openSavedForm services formId => (Opening.openSavedForm services formId world).2
  | .elsewhere files forms clock far =>
      { world with
        far
        device := { world.device with
          files, clock, database := { world.device.database with forms } } }

def KeepsInstances : Act σ → Prop
  | .openForm services _ | .openSavedForm services _ => services.KeepsInstances
  | _ => True

theorem balanced_perform {world : World σ} {act : Act σ} (keeps : act.KeepsInstances)
    (updates : world.device.outages.lookup .updateStatus = none) (id : Int) :
    World.Balanced id world (act.perform world) := by
  cases act with
  | insert filled =>
      exact .of_quiet (Device.finishes_insert world.device filled id) rfl
  | update changed status =>
      exact .of_quiet (Device.finishes_update world.device changed status id) rfl
  | delete erased =>
      exact .of_quiet (Device.finishes_delete world.device erased id) rfl
  | run around uploaders => exact Run.balanced_execute around uploaders updates id
  | openForm services formId => exact Opening.balanced_open_form keeps formId world id
  | openSavedForm services formId => exact Opening.balanced_open_saved_form keeps formId world id
  | elsewhere files forms clock far =>
      exact .of_quiet (.of_same_instances rfl rfl) rfl

def play (world : World σ) (acts : List (Act σ)) : World σ := acts.foldl perform world

theorem play_append (world : World σ) (early late : List (Act σ)) :
    play world (early ++ late) = play (play world early) late :=
  List.foldl_append

theorem balanced_play {world : World σ} {acts : List (Act σ)}
    (keeps : ∀ act ∈ acts, act.KeepsInstances)
    (updates : world.device.outages.lookup .updateStatus = none) (id : Int) :
    World.Balanced id world (play world acts) := by
  induction acts generalizing world with
  | nil => exact .refl id world
  | cons act rest induction =>
      have first := balanced_perform (keeps act List.mem_cons_self) updates id
      apply first.trans
      apply induction
      · intro other member
        exact keeps other (List.mem_cons_of_mem _ member)
      · rw [first.outages, updates]

/-- In a history of any length an instance is accepted at most once, and never after it was
submitted or deleted. What others saw is never taken back, so every acceptance is counted. The
store has no outage for changes of status, which one over the database never has. -/
theorem accepted_at_most_once (world : World σ) (acts : List (Act σ))
    (keeps : ∀ act ∈ acts, act.KeepsInstances)
    (updates : world.device.outages.lookup .updateStatus = none) (id : Int) :
    world.events <+: (play world acts).events ∧
      acceptances id (play world acts).events ≤ acceptances id world.events + 1 ∧
      ∀ early late, acts = early ++ late → (play world early).device.isFinished id = true →
        acceptances id (play world acts).events = acceptances id (play world early).events := by
  have whole := balanced_play keeps updates id
  refine ⟨whole.told, ?_, ?_⟩
  · have bound := whole.bound
    omega
  · rintro early late rfl finished
    have before : World.Balanced id world (play world early) :=
      balanced_play (fun act member => keeps act (List.mem_append_left late member)) updates id
    have after : World.Balanced id (play world early) (play (play world early) late) := by
      apply balanced_play (fun act member => keeps act (List.mem_append_right early member))
      rw [before.outages, updates]
    have bound := after.bound
    have more : acceptances id (play world early).events ≤
        acceptances id (play (play world early) late).events :=
      after.told.sublist.countP_le
    have spent : (play world early).device.spent id = 1 := by
      unfold Device.spent
      rw [finished]
      rfl
    rw [play_append]
    omega

end Act

namespace Rehearsal

theorem record_instances (device : Device) (delivered : Form) :
    (record device delivered).2.database.instances = device.database.instances ∧
      (record device delivered).2.outages = device.outages := by
  have kept := Device.insert_form_instances device delivered
  unfold record
  generalize device.insertForm delivered = inserted at kept ⊢
  rcases inserted with ⟨answer, after⟩
  cases answer <;> exact kept

theorem fetch_instances (deliveries : List (String × Except DownloadError Delivery))
    (formId : String) (device : Device) :
    (fetch deliveries formId device).2.database.instances = device.database.instances ∧
      (fetch deliveries formId device).2.outages = device.outages := by
  unfold fetch
  split
  · exact ⟨rfl, rfl⟩
  · exact ⟨rfl, rfl⟩
  · unfold deliver
    dsimp only
    split
    · exact record_instances _ _
    · exact ⟨rfl, rfl⟩

theorem services_keep_instances : services.KeepsInstances where
  instances formId device far := (fetch_instances far.deliveries formId device).1
  outages formId device far := (fetch_instances far.deliveries formId device).2

end Rehearsal

/-- Two runs, and an opening between them, over two instances that wait. -/
def rehearsedHistory : List (Act Rehearsal.Stage) :=
  [.run Run.rehearsedSurroundings (Rehearsal.uploaders []), .openForm Rehearsal.services "well",
    .run Run.rehearsedSurroundings (Rehearsal.uploaders [])]

theorem rehearsed_history_accepts_once :
    acceptances 1 (Act.play Run.rehearsedWorld rehearsedHistory).events = 1 ∧
      acceptances 1 (Act.play Run.rehearsedWorld rehearsedHistory).events =
        acceptances 1 (Act.play Run.rehearsedWorld (rehearsedHistory.take 1)).events := by
  have keeps : ∀ act ∈ rehearsedHistory, act.KeepsInstances := by
    simp [rehearsedHistory, Act.KeepsInstances, Rehearsal.services_keep_instances]
  obtain ⟨_, _, after⟩ := Act.accepted_at_most_once Run.rehearsedWorld rehearsedHistory keeps
    (by decide) 1
  exact ⟨by decide +kernel, after (rehearsedHistory.take 1) (rehearsedHistory.drop 1)
    (List.take_append_drop 1 rehearsedHistory).symm (by decide +kernel)⟩

end FieldPost
