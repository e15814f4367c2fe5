import FieldPost.Proofs.Isolation

/-!
Over which connection instances leave a device. The gate and the selection decide apart from each
other: the gate opens for an allowed connection or for some form that asks to be sent, the selection
takes every waiting instance as soon as the settings send at all. So what is sent over a connection
that is not allowed need not be of the form that asked. Nothing is said of whether sending succeeds.
-/

namespace FieldPost

open FieldPost.Answers

variable {σ : Type}

theorem Settings.auto_send_disabled {settings : Settings} (off : settings.autoSend = .off) :
    settings.autoSendEnabled = false := by
  unfold autoSendEnabled
  rw [off]
  rfl

namespace Selection

variable {ε : Type}

/-- What is remembered of a form version is what would be answered if it were asked for again. -/
def Known.Right (asks : Key → Except ε Bool) (known : Known) : Prop :=
  ∀ key wanted, known.lookup key = some wanted → asks key = .ok wanted

theorem Known.right_nil (asks : Key → Except ε Bool) : Known.Right asks [] := nofun

theorem Known.Right.learn {asks : Key → Except ε Bool} {known : Known} (right : known.Right asks)
    {key : Key} {wanted : Bool} (asked : asks key = .ok wanted) :
    Known.Right asks ((key, wanted) :: known) := by
  intro other answer found
  rw [List.lookup_cons] at found
  by_cases same : other = key
  · subst same
    rw [beq_self_eq_true] at found
    cases found
    exact asked
  · rw [beq_false_of_ne same] at found
    exact right other answer found

/-- Remembering answers does not change what is selected. -/
theorem remembering_eq_plain (asks : Key → Except ε Bool) {known : Known}
    (right : known.Right asks) (listed : List Instance) :
    (remembering asks known listed).1 = plain asks listed := by
  induction listed generalizing known with
  | nil => rfl
  | cons filled rest induction =>
      unfold remembering plain
      cases remembered : known.lookup (key filled) with
      | some wanted =>
          rw [right _ _ remembered]
          dsimp only
          rw [induction right]
          rfl
      | none =>
          cases asked : asks (key filled) with
          | error error => rfl
          | ok wanted =>
              dsimp only
              rw [induction (right.learn asked)]
              rfl

theorem asked_of_plain {asks : Key → Except ε Bool} {listed kept : List Instance}
    (answered : plain asks listed = .ok kept) :
    ∀ filled ∈ kept, asks (key filled) = .ok true := by
  induction listed generalizing kept with
  | nil =>
      cases answered
      simp
  | cons first rest induction =>
      rcases (bind_eq_ok_iff _ _ _).mp answered with ⟨wanted, asked, narrowed⟩
      rcases (map_eq_ok_iff _ _ _).mp narrowed with ⟨others, later, rfl⟩
      intro filled member
      cases wanted with
      | false => exact induction later filled member
      | true =>
          rcases List.mem_cons.mp member with rfl | inside
          · exact asked
          · exact induction later filled inside

end Selection

namespace Device

/-- The newest record of the form of a stored instance, in exactly its version, asks for its
instances to be sent. -/
def OwnFormAsks (device : Device) (row : InstanceRow) : Prop :=
  ∃ form, device.latestFormVersion row.formId row.formVersion = .ok (some form) ∧
    form.autoSend = some true

/-- Some form, whichever it is, asks for its instances to be sent. -/
def SomeFormAsks (device : Device) : Prop :=
  ∃ entry ∈ device.database.forms.rows, entry.2.autoSend = some 1

theorem some_form_asks_of_answer {device : Device} (answered : device.anyFormRequests = .ok true) :
    device.SomeFormAsks := by
  rcases (reach_eq_ok_iff _ _ _ _).mp answered with ⟨_, asked⟩
  rcases (bind_eq_ok_iff _ _ _).mp asked with ⟨_, _, any⟩
  obtain ⟨entry, member, one⟩ := List.any_eq_true.mp (Except.ok.inj any)
  exact ⟨entry, member, beq_iff_eq.mp one⟩

theorem own_form_asks_of_answer {device : Device} {filled : Instance} {row : InstanceRow}
    (read : row.read filled.id = .ok filled)
    (asked : Selection.asks device (Selection.key filled) = .ok true) : device.OwnFormAsks row := by
  have same := ((InstanceRow.read_eq_ok_iff row filled.id filled).mp read).2.2
  have formId : filled.formId = row.formId := congrArg Instance.formId same
  have version : filled.formVersion = row.formVersion := congrArg Instance.formVersion same
  rcases (map_eq_ok_iff _ _ _).mp asked with ⟨found, latest, wanted⟩
  cases found with
  | none => cases wanted
  | some form =>
      refine ⟨form, ?_, beq_iff_eq.mp wanted⟩
      rw [← formId, ← version]
      exact latest

end Device

namespace Run

/-- The gate opens for an allowed connection, or else for a form that asks. -/
theorem asks_of_gate {around : Surroundings} {device : Device}
    (opens : gate around device = .ok .proceed) :
    around.settings.autoSend.allows around.connection = true ∨ device.SomeFormAsks := by
  unfold gate Gate.evaluate at opens
  cases allowed : around.settings.autoSend.allows around.connection with
  | true => exact .inl rfl
  | false =>
      right
      rw [allowed] at opens
      split at opens
      · rcases (map_eq_ok_iff _ _ _).mp opens with ⟨requests, asked, way⟩
        cases requests with
        | false => cases way
        | true => exact Device.some_form_asks_of_answer asked
      · cases opens

/-- No run completes past a gate that is shut. -/
theorem gate_of_completed {around : Surroundings} {uploaders : Uploaders σ} {world : World σ}
    {summary : Summary} (completed : (execute around uploaders world).1 = .completed summary) :
    gate around world.device = .ok .proceed := by
  unfold execute at completed
  split at completed
  · cases completed
  · cases passed : gate around world.device with
    | error error =>
        rw [passed] at completed
        cases completed
    | ok way =>
        cases way with
        | proceed => rfl
        | stop =>
            rw [passed] at completed
            cases completed
        | retry =>
            rw [passed] at completed
            cases completed

/-- With settings that send nothing of themselves, only instances whose form asks are selected. -/
theorem asks_of_selected {settings : Settings} {device : Device} {candidates : List Instance}
    (selected : Selection.instances settings device = .ok candidates)
    (off : settings.autoSend = .off) {filled : Instance} {row : InstanceRow}
    (member : filled ∈ candidates) (read : row.read filled.id = .ok filled) :
    device.OwnFormAsks row := by
  rcases (bind_eq_ok_iff _ _ _).mp selected with ⟨found, _, narrowed⟩
  rw [Settings.auto_send_disabled off, if_neg Bool.false_ne_true,
    Selection.remembering_eq_plain _ (Selection.Known.right_nil _)] at narrowed
  exact Device.own_form_asks_of_answer read (Selection.asked_of_plain narrowed filled member)

/-- In a turn nothing is handed over but the instance whose turn it is. -/
theorem sent_in_turn {settings : Settings} {uploaders : Uploaders σ} {route : Route}
    {world : World σ} {candidates : List Instance} {turn : Turn σ}
    (member : turn ∈ turns settings uploaders route world candidates) {id : Int} {url : String}
    {answer : Except UploadError (Option String)} (sent : .sent id url answer ∈ turn.told) :
    id = turn.filled.id := by
  obtain ⟨_, _, _, _, ended, _⟩ := turn_splits settings uploaders route member
  have course := course_of_turn settings uploaders route turn.before turn.filled
  rw [ended] at course
  unfold Turn.told at sent
  generalize turn.verdict = verdict at course
  generalize turn.after = after at course sent
  cases course with
  | undestined error wanted =>
      have same : (Submission.mark turn.before turn.filled .submissionFailed).events =
          turn.before.events := rfl
      rw [same, List.drop_length] at sent
      cases sent
  | notSheet url wanted stays =>
      rw [List.drop_length] at sent
      cases sent
  | refused url error wanted leaves answer =>
      rw [handed_events, List.drop_left, List.mem_singleton] at sent
      cases sent
      rfl
  | accepted url message wanted leaves answer =>
      rw [accepted_events, List.append_assoc, List.drop_left, List.cons_append,
        List.nil_append] at sent
      rcases List.mem_cons.mp sent with same | counted
      · cases same
        rfl
      · cases List.mem_singleton.mp counted

/-- What a run hands over is handed over in the turn of a candidate. -/
theorem candidate_of_sent {around : Surroundings} {uploaders : Uploaders σ} {world : World σ}
    {candidates : List Instance} {anyFailure : Bool} {message : String} {id : Int} {url : String}
    {answer : Except UploadError (Option String)}
    (sent : .sent id url answer ∈ chosen around ++
      (turns around.settings uploaders (.ofSettings around.settings) (begun around world)
        candidates).flatMap (·.told) ++ [.noticed anyFailure message]) :
    ∃ filled ∈ candidates, filled.id = id := by
  rcases List.mem_append.mp sent with before | last
  · rcases List.mem_append.mp before with first | inside
    · unfold chosen at first
      split at first
      · cases List.mem_singleton.mp first
      · cases first
    · obtain ⟨turn, member, told⟩ := List.mem_flatMap.mp inside
      have filled := List.mem_map_of_mem (f := Turn.filled) member
      rw [filled_of_turns] at filled
      exact ⟨turn.filled, filled, (sent_in_turn member told).symm⟩
  · cases List.mem_singleton.mp last

/-- Whatever a run hands over goes over a connection that the settings allow, or is of a form that
asks to be sent, or goes while the settings send at all and some form on the device asks. So with
settings that send nothing of themselves an instance never leaves unless its own form asks, and on
a device on which no form asks it never leaves over a connection that is not allowed. -/
theorem sent_over_allowed_connection_or_asked_for (around : Surroundings)
    (uploaders : Uploaders σ) (world : World σ) :
    ∃ told, (execute around uploaders world).2.events = world.events ++ told ∧
      ∀ id url answer, .sent id url answer ∈ told →
        around.settings.autoSend.allows around.connection = true ∨
        (∃ row, world.device.row? id = some row ∧ world.device.OwnFormAsks row) ∨
        (around.settings.autoSend ≠ .off ∧ world.device.SomeFormAsks) := by
  have passed : ∀ summary, (execute around uploaders world).1 = .completed summary →
      gate around world.device = .ok .proceed := fun summary => gate_of_completed
  have execution := execution_of_run around uploaders world
  generalize execute around uploaders world = ended at passed execution ⊢
  rcases ended with ⟨outcome, after⟩
  cases execution with
  | idle _ notices unfinished =>
      refine ⟨_, rfl, ?_⟩
      intro id url answer sent
      obtain ⟨notice, _, same⟩ := List.mem_map.mp sent
      cases same
  | sent candidates selected summary results =>
      refine ⟨_, completed_events _ _ _ _ _, ?_⟩
      intro id url answer sent
      rcases asks_of_gate (passed summary rfl) with allowed | some
      · exact .inl allowed
      by_cases off : around.settings.autoSend = .off
      · -- The gate does not know whose form asked, but with these settings the selection does.
        obtain ⟨filled, member, rfl⟩ := candidate_of_sent sent
        obtain ⟨row, found, read⟩ :=
          (Selection.waiting_of_instances selected).stored filled member
        exact .inr (.inl ⟨row, found, asks_of_selected selected off member read⟩)
      · exact .inr (.inr ⟨off, some⟩)

/-- An instance that waits, and a form that asks without any instance of its own. -/
def mixedWorld : World Rehearsal.Stage where
  device :=
    ((deviceWith [waitingInstance "well" "/well/1.xml"] {}).insertForm
      { Rehearsal.form "pump" { path := "/forms/pump.xml" } (.ofSeconds 0) with
        autoSend := some true }).2
  far := {}

/-- Settings that send over one kind of connection, on a device that has the other kind. -/
def forbiddenSurroundings : Surroundings :=
  { rehearsedSurroundings with connection := some .cellular }

theorem mixed_run_sends :
    ∃ url answer, .sent 1 url answer ∈
      (execute forbiddenSurroundings (Rehearsal.uploaders []) mixedWorld).2.events := by
  have counted : (execute forbiddenSurroundings (Rehearsal.uploaders []) mixedWorld).2.events.any
      (fun event => match event with | .sent id _ _ => id == 1 | _ => false) = true := by
    decide +kernel
  obtain ⟨event, member, one⟩ := List.any_eq_true.mp counted
  cases event <;> simp at one
  subst one
  exact ⟨_, _, member⟩

/-- A form that asks opens the gate for the instances of all others. -/
theorem forbidden_connection_used_for_other_form :
    ¬ ∀ (around : Surroundings) (uploaders : Uploaders Rehearsal.Stage)
      (world : World Rehearsal.Stage) (told : List Event),
      (execute around uploaders world).2.events = world.events ++ told →
      ∀ id url answer, .sent id url answer ∈ told →
        around.settings.autoSend.allows around.connection = true ∨
        ∃ row, world.device.row? id = some row ∧ world.device.OwnFormAsks row := by
  intro claimed
  obtain ⟨url, answer, sent⟩ := mixed_run_sends
  rcases claimed forbiddenSurroundings (Rehearsal.uploaders []) mixedWorld _ rfl 1 url answer sent
    with allowed | ⟨row, found, form, latest, _⟩
  · cases allowed
  · have stored : mixedWorld.device.row? 1 =
        some (.ofInstance (waitingInstance "well" "/well/1.xml")) := by decide +kernel
    rw [stored] at found
    cases found
    have unknown : mixedWorld.device.latestFormVersion "well" none = .ok none := by rfl
    cases unknown.symm.trans latest

theorem mixed_run_sends_for_other_form :
    ∃ url answer, .sent 1 url answer ∈
        (execute forbiddenSurroundings (Rehearsal.uploaders []) mixedWorld).2.events ∧
      (forbiddenSurroundings.settings.autoSend.allows forbiddenSurroundings.connection = true ∨
        (∃ row, mixedWorld.device.row? 1 = some row ∧ mixedWorld.device.OwnFormAsks row) ∨
        (forbiddenSurroundings.settings.autoSend ≠ .off ∧ mixedWorld.device.SomeFormAsks)) := by
  obtain ⟨url, answer, sent⟩ := mixed_run_sends
  obtain ⟨told, events, each⟩ := sent_over_allowed_connection_or_asked_for forbiddenSurroundings
    (Rehearsal.uploaders []) mixedWorld
  refine ⟨url, answer, sent, each 1 url answer ?_⟩
  rw [events] at sent
  exact sent

end Run

end FieldPost
