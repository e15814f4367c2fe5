import FieldPost.Proofs.Turns
import FieldPost.Rehearsal

/-!
Isolation. In a run that completes, each candidate is treated as if it were the only one: what
is said of it, what others see of it and what becomes of its row follow from its own destination
and its own answer, and from the forms and the row that were there when the run began. The
clock has to stay within four-digit years, because a row with any other time cannot be read and
so cannot be deleted. The store must not be out of reach for changes of status and for deletions;
one over the database never is, only a store of another kind.
-/

namespace FieldPost.Run

open FieldPost.Answers

variable {σ : Type}

/-- The words for an accepted instance: those of the far side, unless it said nothing. -/
def shownWords : Option String → String
  | some words => if Text.isBlankText words then "Success" else words
  | none => "Success"

theorem accepted_text_eq (message : Option String) :
    acceptedText message = shownWords message := by
  cases message with
  | none => rfl
  | some words =>
      unfold acceptedText shownWords
      cases blank : Text.isBlankText words <;> simp [Option.filter, blank, successMessage]

/-- The row of an instance has got another status and the time of the change, and is otherwise
what it was. -/
def MarkedAs (status : Status) (start final : Device) (id : Int) : Prop :=
  ∃ row changed, start.row? id = some row ∧
    final.row? id = some (Database.changeStatus status changed row)

/-- The form of an instance is found, and it or the settings want a sent instance deleted. -/
def WantsDeletion (settings : Settings) (start : Device) (filled : Instance) : Prop :=
  ∃ form, start.latestFormVersion filled.formId filled.formVersion = .ok form ∧
    Form.deletesAfterSend form settings.deleteAfterSend = true

section

variable (settings : Settings) (uploaders : Uploaders σ) (route : Route)

def Turn.destination (turn : Turn σ) : Except UploadError String :=
  (route.uploader uploaders).destination turn.filled route.deviceId

def Turn.answer (turn : Turn σ) (url : String) : Except UploadError (Option String) :=
  ((route.uploader uploaders).send turn.before.device.files turn.filled url turn.before.far).1

/-- A turn as if it were the only one between the beginning and the end of the run. -/
structure TreatedAlone (start final : Device) (turn : Turn σ) : Prop where
  undestined : ∀ error, turn.destination uploaders route = .error error →
    turn.verdict = .failure error.displayMessage ∧ turn.told = [] ∧
      MarkedAs .submissionFailed start final turn.filled.id
  notSheet : ∀ url, turn.destination uploaders route = .ok url → StaysHere route url →
    turn.verdict = .failure RunError.spreadsheetOnly ∧ turn.told = [] ∧
      turn.after.far = turn.before.far ∧
      final.row? turn.filled.id = start.row? turn.filled.id
  refused : ∀ url error, turn.destination uploaders route = .ok url → ¬ StaysHere route url →
    turn.answer uploaders route url = .error error →
    turn.verdict = .failure error.displayMessage ∧
      turn.told = [.sent turn.filled.id url (.error error)] ∧
      MarkedAs .submissionFailed start final turn.filled.id
  accepted : ∀ url message, turn.destination uploaders route = .ok url →
    ¬ StaysHere route url → turn.answer uploaders route url = .ok message →
    turn.verdict = .success (shownWords message) ∧
      turn.told = [.sent turn.filled.id url (.ok message), countedEvent route turn.filled] ∧
      (final.row? turn.filled.id = none ↔ WantsDeletion settings start turn.filled) ∧
      (¬ WantsDeletion settings start turn.filled →
        MarkedAs .submitted start final turn.filled.id)

/-! ### Around one turn -/

theorem clock_after {world : World σ} {candidates : List Instance} {readings : Nat}
    (clock : world.device.clock.ReadsFourDigitYears (candidates.length + readings)) :
    (worldAfter settings uploaders route world candidates).device.clock.ReadsFourDigitYears
      readings := by
  induction candidates generalizing world with
  | nil => simpa [worldAfter] using clock
  | cons filled rest induction =>
      rw [world_after_cons]
      apply induction
      rw [List.length_cons] at clock
      rcases turn_clock settings uploaders route world filled with same | moved
      · rw [same]
        exact clock.fewer (by omega)
      · rw [moved]
        exact Moment.ReadsFourDigitYears.later
          (by rwa [Nat.add_right_comm] at clock)

theorem turn_clock_reads {world : World σ} {candidates : List Instance} {turn : Turn σ}
    (clock : world.device.clock.ReadsFourDigitYears candidates.length)
    (member : turn ∈ turns settings uploaders route world candidates) :
    turn.before.device.clock.InFourDigitYears := by
  obtain ⟨early, late, split, before, _, _⟩ := turn_splits settings uploaders route member
  rw [split, List.length_append, List.length_cons] at clock
  have reads := clock_after settings uploaders route
    (clock.fewer (show early.length + 1 ≤ _ by omega))
  rw [← before] at reads
  exact reads.now

/-! ### Inside one turn -/

/-- Whether an accepted instance is deleted hangs on its own form and the settings. -/
theorem deleted_after_send_iff {start device : Device} (filled : Instance) {touched : Int → Prop}
    (changes : Device.ChangesOnly touched start device) :
    isDeletedAfterSend settings device filled = true ↔ WantsDeletion settings start filled := by
  unfold isDeletedAfterSend WantsDeletion
  rw [changes.latest_form_version]
  cases start.latestFormVersion filled.formId filled.formVersion <;> simp

/-- A row that was marked in a turn is marked at the end of the run. -/
theorem marked_as {start final : Device} {world : World σ} {filled : Instance}
    {row : InstanceRow} {status : Status} (ready : Selection.Ready world.device filled row)
    (outcome : status = .submitted ∨ status = .submissionFailed)
    (before : world.device.row? filled.id = start.row? filled.id)
    (after : final.row? filled.id =
      (world.device.updateStatus filled.id status).2.row? filled.id) :
    MarkedAs status start final filled.id := by
  refine ⟨row, world.device.clock, before.symm.trans ready.found, ?_⟩
  rw [after, ready.mark outcome, Device.row_with_status, if_pos rfl, ready.found]
  rfl

/-- The row of an accepted instance at the end of its turn. -/
theorem accepted_row {start : Device} {world : World σ} {filled : Instance} {row : InstanceRow}
    {touched : Int → Prop} (ready : Selection.Ready world.device filled row)
    (deletes : world.device.outages.lookup .deleteInstance = none)
    (clock : world.device.clock.InFourDigitYears)
    (changes : Device.ChangesOnly touched start world.device) (url : String) :
    (WantsDeletion settings start filled →
      (deleteIfWanted settings (handedAndMarked uploaders route world filled url .submitted)
        filled).device.row? filled.id = none) ∧
    (¬ WantsDeletion settings start filled →
      (deleteIfWanted settings (handedAndMarked uploaders route world filled url .submitted)
        filled).device = (world.device.updateStatus filled.id .submitted).2) := by
  have marked := handed_device uploaders route world filled url .submitted
  have updated := Device.update_status_changes world.device filled.id .submitted
  have wanted := deleted_after_send_iff settings filled
    ((changes.widen (fun _ => True) (fun _ _ => trivial)).trans
      (updated.widen (fun _ => True) (fun _ _ => trivial)))
  rw [← marked] at wanted
  unfold deleteIfWanted
  constructor
  · intro wants
    rw [if_pos (wanted.mpr wants)]
    have written : (world.device.updateStatus filled.id .submitted).2 =
        world.device.withStatus filled.id .submitted := by
      rw [ready.mark (.inl rfl)]
    have gone := ready.delete deletes clock
    rwa [← written] at gone
  · intro keeps
    rw [if_neg (fun deletes => keeps (wanted.mp deletes))]
    exact marked

/-- Every turn of a run is as if it were the only one. -/
theorem treated_alone {world : World σ} {candidates : List Instance} {turn : Turn σ}
    (waiting : Selection.Waiting world.device candidates)
    (updates : world.device.outages.lookup .updateStatus = none)
    (deletes : world.device.outages.lookup .deleteInstance = none)
    (clock : world.device.clock.ReadsFourDigitYears candidates.length)
    (member : turn ∈ turns settings uploaders route world candidates) :
    TreatedAlone settings uploaders route world.device
      (worldAfter settings uploaders route world candidates).device turn := by
  have now := turn_clock_reads settings uploaders route clock member
  obtain ⟨early, late, split, _, sent, _⟩ := turn_splits settings uploaders route member
  obtain ⟨opens, closes⟩ := turn_frame settings uploaders route waiting.ascending member
  obtain ⟨row, atStart⟩ := waiting.ready (show turn.filled ∈ candidates by simp [split]) updates
  have ready := atStart.keep opens
  -- No other turn touches the row, so it begins this one as it began the run, and ends alike.
  have before := opens.own_row
  have after := closes.own_row
  rw [← opens.outages] at deletes
  refine ⟨?_, ?_, ?_, ?_⟩
  · intro error wanted
    rw [send_one_undestined settings uploaders route wanted] at sent
    obtain ⟨verdict, left⟩ := Prod.mk.inj sent
    refine ⟨verdict.symm, Turn.told_eq ?_, marked_as ready (.inr rfl) before ?_⟩
    · rw [← left]
      exact (List.append_nil _).symm
    · rw [after, ← left]
      rfl
  · intro url wanted stays
    rw [send_one_not_sheet settings uploaders route wanted stays] at sent
    obtain ⟨verdict, left⟩ := Prod.mk.inj sent
    refine ⟨verdict.symm, Turn.told_eq ?_, ?_, ?_⟩
    · rw [← left, List.append_nil]
    · rw [← left]
    · rw [after, ← left, before]
  · intro url error wanted leaves answer
    rw [send_one_refused settings uploaders route wanted leaves answer] at sent
    obtain ⟨verdict, left⟩ := Prod.mk.inj sent
    unfold Turn.answer at answer
    refine ⟨verdict.symm, Turn.told_eq ?_, marked_as ready (.inr rfl) before ?_⟩
    · rw [← left, handed_events, answer]
    · rw [after, ← left]
      rfl
  · intro url message wanted leaves answer
    rw [send_one_accepted settings uploaders route wanted leaves answer] at sent
    obtain ⟨verdict, left⟩ := Prod.mk.inj sent
    obtain ⟨gone, kept⟩ := accepted_row settings uploaders route ready deletes now opens url
    have last : (worldAfter settings uploaders route world candidates).device.row?
        turn.filled.id =
        (deleteIfWanted settings
          (handedAndMarked uploaders route turn.before turn.filled url .submitted)
          turn.filled).device.row? turn.filled.id := by
      rw [after, ← left]
      rfl
    have marked : ¬ WantsDeletion settings world.device turn.filled →
        MarkedAs .submitted world.device
          (worldAfter settings uploaders route world candidates).device turn.filled.id := by
      intro keeps
      apply marked_as ready (.inl rfl) before
      rw [last, kept keeps]
    refine ⟨?_, ?_, ⟨?_, ?_⟩, marked⟩
    · rw [← verdict, accepted_text_eq]
    · unfold Turn.answer at answer
      apply Turn.told_eq
      rw [← left, accepted_events, List.append_assoc, answer]
      rfl
    · intro removed
      by_contra keeps
      obtain ⟨_, _, _, found⟩ := marked keeps
      rw [removed] at found
      cases found
    · intro wants
      rw [last]
      exact gone wants

end

/-- A run that completes has one result for each selected instance, in the order of their
identifiers, and each of them was treated alone. Others saw the account that was chosen, then the
turns one by one, then the notice; the rows of all other instances are as before. The outages that
are excluded are those of stores of another kind than the one over the database. -/
theorem completed_run_treats_each_alone (around : Surroundings) (uploaders : Uploaders σ)
    (world after : World σ) (summary : Summary)
    (completed : execute around uploaders world = (.completed summary, after))
    (updates : world.device.outages.lookup .updateStatus = none)
    (deletes : world.device.outages.lookup .deleteInstance = none)
    (clock : world.device.clock.ReadsFourDigitYears
      world.device.database.instances.rows.length) :
    ∃ candidates run,
      Selection.instances around.settings world.device = .ok candidates ∧
      run = turns around.settings uploaders (.ofSettings around.settings) (begun around world)
        candidates ∧
      run.map (·.filled) = candidates ∧
      (candidates.map (·.id)).Pairwise (· < ·) ∧
      summary.results = run.map (·.result) ∧
      (∀ turn ∈ run, TreatedAlone around.settings uploaders (.ofSettings around.settings)
        world.device after.device turn) ∧
      after.events = world.events ++ chosen around ++ run.flatMap (·.told) ++
        [.noticed summary.anyFailure summary.message] ∧
      Device.ChangesOnly (· ∈ candidates.map (·.id)) world.device after.device := by
  have execution := execution_of_run around uploaders world
  simp only [completed] at execution
  cases execution with
  | idle _ notices unfinished => exact absurd rfl (unfinished summary)
  | sent candidates selected _ results =>
      have waiting := Selection.waiting_of_instances selected
      refine ⟨candidates, _, selected, rfl, ?_, waiting.ascending, results, ?_, ?_, ?_⟩
      · exact filled_of_turns _ _ _ _ _
      · intro turn member
        exact treated_alone around.settings uploaders (.ofSettings around.settings)
          (show Selection.Waiting (begun around world).device candidates from waiting) updates
          deletes (clock.fewer waiting.few) member
      · rw [completed_events]
        simp only [List.append_assoc]
      · exact world_after_changes around.settings uploaders (.ofSettings around.settings)
          (begun around world) candidates

def waitingInstance (formId path : String) : Instance where
  displayName := formId
  formId := formId
  formVersion := none
  status := .complete
  path := path
  submissionUri := none
  changed := .ofSeconds 0

/-- A device with these instances, which are given identifiers from 1, and these files. -/
def deviceWith (stored : List Instance) (files : FileTree) : Device where
  database :=
    { instances := (stored.map InstanceRow.ofInstance).foldl Table.insert .empty
      forms := .empty }
  files := files

/-- Two instances that wait, of which a script turns the second one away. -/
def rehearsedWorld : World Rehearsal.Stage where
  device :=
    deviceWith [waitingInstance "well" "/well/1.xml", waitingInstance "pump" "/pump/2.xml"] {}
  far := { replies := [("pump", { answer := .error (.rejected 500 "") })] }

/-- A device that may send over the connection it has, and deletes what it has sent. -/
def rehearsedSurroundings : Surroundings where
  settings := { autoSend := .wifiOnly, deleteAfterSend := true }
  storage := ⟨"/", false⟩
  connection := some .wifi
  accounts := ⟨false, none, .error .noneSelected⟩

theorem rehearsed_run_treats_each_alone :
    ∃ (candidates : List Instance) (run : List (Turn Rehearsal.Stage)),
      Selection.instances rehearsedSurroundings.settings rehearsedWorld.device = .ok candidates ∧
      run.map (·.filled) = candidates ∧
      [⟨1, "well", .success "Success"⟩, ⟨2, "pump", .failure "Error: 500"⟩] =
        run.map (·.result) ∧
      ∀ turn ∈ run, TreatedAlone rehearsedSurroundings.settings (Rehearsal.uploaders [])
        (.server none) rehearsedWorld.device
        (execute rehearsedSurroundings (Rehearsal.uploaders []) rehearsedWorld).2.device turn := by
  have completed : execute rehearsedSurroundings (Rehearsal.uploaders []) rehearsedWorld =
      (.completed ⟨[⟨1, "well", .success "Success"⟩, ⟨2, "pump", .failure "Error: 500"⟩]⟩,
        (execute rehearsedSurroundings (Rehearsal.uploaders []) rehearsedWorld).2) :=
    Prod.ext (by decide +kernel) rfl
  obtain ⟨candidates, run, selected, _, each, _, results, alone, _⟩ :=
    completed_run_treats_each_alone _ _ _ _ _ completed (by decide) (by decide)
      ⟨by decide, by decide⟩
  exact ⟨candidates, run, selected, each, results, alone⟩

end FieldPost.Run
