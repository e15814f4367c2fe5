import FieldPost.Proofs.Drafts
import FieldPost.Proofs.Latest

/-!
What openings show. Opening a form blank discards its drafts; opening it saved resumes the latest of
them and falls back to a blank one only when there is none, so it never discards any. Either way the
launcher is asked at most once, for what the answer names, and the answer is what the launcher
makes of it. It is not asked after a store or a download has failed. What the screen does with
what it is shown is not said.
-/

namespace FieldPost

open FieldPost.Answers

variable {σ : Type}

/-! ### Launches -/

/-- What was shown so far, whether or not showing it succeeded. -/
def World.launches (world : World σ) : List Launch :=
  world.events.filterMap fun event =>
    match event with
    | .launched launch => some launch
    | _ => none

namespace Opening

/-- What the launcher is asked for when the answer is to be this. -/
inductive Fits : Launch → Opened → Prop
  | blank (form : Form) : Fits (.blank form) (.blank form)
  | resumed (filled : Instance) : Fits (.resume filled .beginning) (.resumed filled)

/-- What an opening with this answer has shown. -/
inductive Shown : Answer Opened → List Launch → Prop
  | opened {wanted : Launch} {opened : Opened} (fits : Fits wanted opened) :
      Shown (.ok opened) [wanted]
  | refused (reason : String) (wanted : Launch) : Shown (.error (.launch reason)) [wanted]
  | undelivered (error : DownloadError) : Shown (.error (.downloadFailed error)) []
  | unanswered (error : StoreError) : Shown (.error (.store error)) []

/-- How an opening ends, with its answer, the far side and all that was shown, when the far side was
so before the launcher could be asked. It is not asked, after something else has failed; or it
is asked once, and then it decides the answer and changes the far side. -/
inductive Ends (services : FormServices σ) (far : σ) (launches : List Launch) :
    Answer Opened → σ → List Launch → Prop
  | unasked (error : OpeningError) (blameless : ∀ reason, error ≠ .launch reason) :
      Ends services far launches (.error error) far launches
  | asked {wanted : Launch} {opened : Opened} (fits : Fits wanted opened) :
      Ends services far launches
        (((services.launch wanted far).1.mapError OpeningError.launch).map fun _ => opened)
        (services.launch wanted far).2 (launches ++ [wanted])

/-- The far side is as it was, or as a download of the form has left it. -/
def Fetched (services : FormServices σ) (formId : String) (before after : σ) : Prop :=
  after = before ∨ ∃ device, after = (services.download formId device before).far

theorem Ends.shown {services : FormServices σ} {far after : σ} {launches later : List Launch}
    {answer : Answer Opened} (ends : Ends services far launches answer after later) :
    ∃ shown, Shown answer shown ∧ later = launches ++ shown := by
  cases ends with
  | unasked error blameless =>
      refine ⟨[], ?_, (List.append_nil _).symm⟩
      cases error with
      | downloadFailed error => exact .undelivered error
      | store error => exact .unanswered error
      | launch reason => exact absurd rfl (blameless reason)
  | @asked wanted opened fits =>
      refine ⟨[wanted], ?_, rfl⟩
      cases (services.launch wanted far).1 with
      | error reason => exact .refused reason wanted
      | ok done => exact .opened fits

/-- Nothing was shown, and no launch is to blame if the answer is an error. -/
structure Unshown {α : Type} (before : World σ) (ended : Answer α × World σ) : Prop where
  launches : ended.2.launches = before.launches
  blameless : ∀ reason, ended.1 ≠ .error (.launch reason)

theorem unshown_receive {α : Type} {world : World σ} (received : Download α σ) :
    Unshown world (receive world received) where
  launches := by
    have silent : received.progress.filterMap
        ((fun event => match event with | .launched launch => some launch | _ => none) ∘
          Event.downloaded) = ([] : List Launch) :=
      List.filterMap_eq_nil_iff.mpr fun _ _ => rfl
    unfold World.launches receive
    rw [List.filterMap_append, List.filterMap_map, silent, List.append_nil]
  blameless reason := by
    unfold receive
    cases received.answer <;> simp [Except.mapError]

theorem unshown_discard (world : World σ) (found : List Instance) :
    Unshown world (discard world found) ∧ (discard world found).2.far = world.far := by
  induction found generalizing world with
  | nil => exact ⟨⟨rfl, nofun⟩, rfl⟩
  | cons draft rest induction =>
      unfold discard
      dsimp only
      split
      · exact ⟨⟨rfl, nofun⟩, rfl⟩
      · obtain ⟨others, untouched⟩ :=
          induction (world.onDevice fun device => device.deleteInstance draft.id).2
        exact ⟨⟨others.launches, others.blameless⟩, untouched⟩

theorem unshown_discard_drafts (formId : String) (world : World σ) :
    Unshown world (discardDrafts formId world) ∧
      (discardDrafts formId world).2.far = world.far := by
  unfold discardDrafts
  cases listed : drafts world.device formId with
  | ok found => exact unshown_discard world found
  | error error =>
      obtain ⟨problem, rfl⟩ := drafts_fail_of_store listed
      exact ⟨⟨rfl, nofun⟩, rfl⟩

theorem unshown_obtain (services : FormServices σ) (formId : String) (world : World σ) :
    Unshown world (obtain services formId world) := by
  unfold obtain
  cases known : cacheState world.device formId with
  | error error =>
      refine ⟨rfl, ?_⟩
      rintro reason same
      cases same
      unfold cacheState ofStore at known
      generalize Except.map _ (world.device.latestForm formId) = answer at known
      cases answer <;> cases known
  | ok state =>
      cases state with
      | valid form => exact ⟨rfl, nofun⟩
      | absent => exact unshown_receive _
      | corrupt form =>
          unfold repair
          dsimp only
          split
          · exact ⟨rfl, nofun⟩
          · exact unshown_receive _

theorem fetched_obtain (services : FormServices σ) (formId : String) (world : World σ) :
    Fetched services formId world.far (obtain services formId world).2.far := by
  unfold obtain
  split
  · exact .inl rfl
  · exact .inl rfl
  · exact .inr ⟨world.device, rfl⟩
  · unfold repair
    dsimp only
    split
    · exact .inl rfl
    · exact .inr ⟨_, rfl⟩

/-- An error that no launch is to blame for, after which nothing has been shown. -/
theorem ends_of_unshown {α : Type} (services : FormServices σ) {before : World σ}
    {ended : Answer α × World σ} (unshown : Unshown before ended) {error : OpeningError}
    (failed : ended.1 = .error error) :
    Ends services ended.2.far before.launches (.error error) ended.2.far ended.2.launches := by
  rw [unshown.launches]
  refine .unasked error ?_
  rintro reason rfl
  exact unshown.blameless reason failed

theorem ends_by_launch (services : FormServices σ) {wanted : Launch} {opened : Opened}
    (fits : Fits wanted opened) (world : World σ) :
    Ends services world.far world.launches (launch services wanted opened world).1
      (launch services wanted opened world).2.far
      (launch services wanted opened world).2.launches := by
  have shown : (launch services wanted opened world).2.launches = world.launches ++ [wanted] :=
    List.filterMap_append
  rw [shown]
  exact .asked fits

theorem open_form_ends (services : FormServices σ) (formId : String) (world : World σ) :
    ∃ far, Fetched services formId world.far far ∧
      Ends services far world.launches (openForm services formId world).1
        (openForm services formId world).2.far (openForm services formId world).2.launches := by
  obtain ⟨discarded, untouched⟩ := unshown_discard_drafts formId world
  unfold openForm
  dsimp only
  split
  · rename_i error failed
    exact ⟨_, .inl untouched, ends_of_unshown services discarded failed⟩
  · have obtained := unshown_obtain services formId (discardDrafts formId world).2
    have fetched := fetched_obtain services formId (discardDrafts formId world).2
    rw [untouched] at fetched
    refine ⟨_, fetched, ?_⟩
    rw [← discarded.launches]
    unfold showBlank
    split
    · rename_i error failed
      exact ends_of_unshown services obtained failed
    · rename_i form found
      rw [← obtained.launches]
      exact ends_by_launch services (.blank form) _

end Opening

/-! ### The latest draft -/

namespace Device

/-- An unfinished instance of the form, as it is stored. -/
def StoresDraft (device : Device) (formId : String) (draft : Instance) : Prop :=
  ∃ row, device.row? draft.id = some row ∧ row.read draft.id = .ok draft ∧
    draft.formId = formId ∧ draft.status = .incomplete

/-- The stored draft of the form that was changed last, and of those that were changed last at
once the one with the greatest identifier. -/
def LatestDraft (device : Device) (formId : String) (draft : Instance) : Prop :=
  device.StoresDraft formId draft ∧ ∀ other, device.StoresDraft formId other →
    other = draft ∨ other.changed.before draft.changed = true ∨
      other.changed = draft.changed ∧ other.id < draft.id

end Device

namespace Opening

theorem ids_of_drafts {device : Device} {formId : String} {found : List Instance}
    (listed : drafts device formId = .ok found) : (found.map (·.id)).Pairwise (· < ·) := by
  rcases (map_eq_ok_iff _ _ _).mp ((map_error_eq_ok_iff _ _ _).mp listed) with ⟨all, asked, rfl⟩
  rcases (Device.reach_eq_ok_iff _ _ _ _).mp asked with ⟨_, answered⟩
  rcases (bind_eq_ok_iff _ _ _).mp answered with ⟨_, _, read⟩
  have each := (mapM_eq_ok_iff _ _ _).mp read
  have ascending : (all.map (·.id)).Pairwise (· < ·) := by
    rw [Selection.ids_of_read each]
    exact device.database.instances.ascending.sublist (List.filter_sublist.map _)
  exact ascending.sublist (List.filter_sublist.map _)

/-- The drafts that are listed are those that are stored. -/
theorem mem_listed_iff {device : Device} {formId : String} {found : List Instance}
    (listed : drafts device formId = .ok found) (draft : Instance) :
    draft ∈ found ↔ device.StoresDraft formId draft := by
  rcases (map_eq_ok_iff _ _ _).mp ((map_error_eq_ok_iff _ _ _).mp listed) with ⟨all, asked, rfl⟩
  rcases (Device.reach_eq_ok_iff _ _ _ _).mp asked with ⟨_, answered⟩
  rcases (bind_eq_ok_iff _ _ _).mp answered with ⟨_, _, read⟩
  have each := (mapM_eq_ok_iff _ _ _).mp read
  have formed : ∀ {row : InstanceRow}, row.read draft.id = .ok draft → draft.formId = row.formId :=
    fun reads => congrArg Instance.formId ((InstanceRow.read_eq_ok_iff _ _ _).mp reads).2.2
  rw [List.mem_filter, Selection.mem_read_iff each, beq_iff_eq]
  constructor
  · rintro ⟨⟨row, inside, reads⟩, incomplete⟩
    rcases List.mem_filter.mp inside with ⟨stored, ofForm⟩
    exact ⟨row, (Table.find_eq_some_iff _ _ _).mpr stored, reads,
      (formed reads).trans (beq_iff_eq.mp ofForm), incomplete⟩
  · rintro ⟨row, found, reads, ofForm, incomplete⟩
    have stored := (Table.find_eq_some_iff _ _ _).mp found
    have wanted := beq_iff_eq.mpr ((formed reads).symm.trans ofForm)
    exact ⟨⟨row, List.mem_filter.mpr ⟨stored, wanted⟩, reads⟩, incomplete⟩

theorem holds_draft_of_stored {device : Device} {formId : String} {draft : Instance}
    (stored : device.StoresDraft formId draft) : device.HoldsDraft formId draft.id := by
  obtain ⟨row, found, reads, formed, incomplete⟩ := stored
  have same := ((InstanceRow.read_eq_ok_iff row draft.id draft).mp reads).2.2
  have ofForm : draft.formId = row.formId := congrArg Instance.formId same
  have status := Status.text_of_ofText? (InstanceRow.status_of_read reads)
  rw [incomplete] at status
  exact ⟨row, found, ofForm.symm.trans formed, status.symm⟩

/-- What is resumed is the latest draft. -/
theorem latest_eq_some_iff {device : Device} {formId : String} {found : List Instance}
    (listed : drafts device formId = .ok found) (draft : Instance) :
    latest found = some draft ↔ device.LatestDraft formId draft := by
  rw [latest_eq_topmost, topmost_eq_some_iff (ranks_of_ids (ids_of_drafts listed))]
  unfold Device.LatestDraft
  rw [mem_listed_iff listed]
  apply and_congr_right
  intro _
  apply forall_congr'
  intro other
  rw [mem_listed_iff listed, is_later_iff]

theorem no_latest_iff {found : List Instance} {device : Device} {formId : String}
    (listed : drafts device formId = .ok found) :
    latest found = none ↔ ∀ id, ¬ device.HoldsDraft formId id := by
  rw [latest_eq_topmost, topmost_eq_none_iff]
  constructor
  · rintro rfl id held
    have member := (mem_drafts_iff listed id).mpr held
    cases member
  · intro none
    apply List.eq_nil_iff_forall_not_mem.mpr
    intro draft member
    exact none draft.id ((mem_drafts_iff listed draft.id).mp (List.mem_map_of_mem member))

theorem drafts_of_answer {device : Device} {formId : String} {all : List Instance}
    (answered : device.instancesByFormId formId = .ok all) :
    drafts device formId = .ok (all.filter fun filled => filled.status == .incomplete) := by
  unfold drafts ofStore
  rw [answered]
  rfl

theorem drafts_of_refusal {device : Device} {formId : String} {problem : StoreError}
    (refused : device.instancesByFormId formId = .error problem) :
    drafts device formId = .error (.store problem) := by
  unfold drafts ofStore
  rw [refused]
  rfl

/-! ### Both openings -/

theorem open_form_discards {services : FormServices σ} (keeps : services.KeepsInstances)
    (formId : String) (world : World σ) :
    ∃ dropped, (∀ id ∈ dropped, world.device.HoldsDraft formId id) ∧
      ((∃ opened, (openForm services formId world).1 = .ok opened) →
        ∀ id, world.device.HoldsDraft formId id → id ∈ dropped) ∧
      (openForm services formId world).2.device.database.instances =
        world.device.database.instances.without dropped := by
  have spares : services.Spares fun _ => False := fun _ _ _ _ spared => spared.elim
  obtain ⟨dropped, drafts, all, instances, _⟩ := open_form_loses keeps spares formId world
  refine ⟨dropped, drafts, ?_, instances⟩
  rintro ⟨opened, answered⟩
  apply all
  intro problem failed
  cases answered.symm.trans failed

/-- While the instances of a form can be listed, there is a draft to resume or none to lose. -/
theorem open_saved_form_of_answer (services : FormServices σ) {formId : String} {world : World σ}
    {all : List Instance} (answered : world.device.instancesByFormId formId = .ok all) :
    (∃ draft, world.device.LatestDraft formId draft ∧
      openSavedForm services formId world =
        launch services (.resume draft .beginning) (.resumed draft) world) ∨
    (∀ id, ¬ world.device.HoldsDraft formId id) ∧
      openSavedForm services formId world = openForm services formId world := by
  have listed := drafts_of_answer answered
  unfold openSavedForm
  rw [listed]
  dsimp only
  cases found : latest (all.filter fun filled => filled.status == .incomplete) with
  | some draft => exact .inl ⟨draft, (latest_eq_some_iff listed draft).mp found, rfl⟩
  | none => exact .inr ⟨(no_latest_iff listed).mp found, rfl⟩

/-- While the instances cannot be listed, both openings end before they have done anything. -/
theorem openings_of_refusal (services : FormServices σ) {formId : String} {world : World σ}
    {problem : StoreError} (refused : world.device.instancesByFormId formId = .error problem) :
    openSavedForm services formId world = (.error (.store problem), world) ∧
      openForm services formId world = (.error (.store problem), world) := by
  have listed := drafts_of_refusal refused
  constructor
  · unfold openSavedForm
    rw [listed]
  · unfold openForm discardDrafts
    rw [listed]

theorem open_saved_form_keeps {services : FormServices σ} (keeps : services.KeepsInstances)
    (formId : String) (world : World σ) :
    (openSavedForm services formId world).2.device.database.instances =
      world.device.database.instances := by
  cases answer : world.device.instancesByFormId formId with
  | error problem => rw [(openings_of_refusal services answer).1]
  | ok all =>
      rcases open_saved_form_of_answer services answer with ⟨draft, _, resumed⟩ | ⟨none, blank⟩
      · rw [resumed]
        rfl
      · -- The fallback finds no draft either, so it drops nothing.
        obtain ⟨dropped, drafts, _, instances⟩ := open_form_discards keeps formId world
        have nothing : dropped = [] :=
          List.eq_nil_iff_forall_not_mem.mpr fun id member => none id (drafts id member)
        rw [blank, instances, nothing, Table.without_nil]

theorem open_saved_form_ends (services : FormServices σ) (formId : String) (world : World σ) :
    ∃ far, Fetched services formId world.far far ∧
      Ends services far world.launches (openSavedForm services formId world).1
        (openSavedForm services formId world).2.far
        (openSavedForm services formId world).2.launches := by
  unfold openSavedForm
  cases listed : drafts world.device formId with
  | error error =>
      obtain ⟨problem, rfl⟩ := drafts_fail_of_store listed
      exact ⟨world.far, .inl rfl, .unasked (.store problem) nofun⟩
  | ok found =>
      dsimp only
      split
      · rename_i draft _
        exact ⟨world.far, .inl rfl, ends_by_launch services (.resumed draft) world⟩
      · exact open_form_ends services formId world

/-- Both openings, whatever is stored, whatever of it is answered, and whatever becomes of the
download and of the launch. Opening blank deletes drafts of the form and nothing else, and all of
them unless it fails. Opening saved deletes no instance. While the instances of the form can be
listed it asks the launcher for the latest draft, if there is one, and else does what opening blank
does; while they cannot, both end alike. Each asks the launcher once for what its answer names, and
answers what the launcher makes of it; or it fails before that and does not ask it. -/
theorem openings_resume_or_discard (services : FormServices σ) (keeps : services.KeepsInstances)
    (formId : String) (world : World σ) :
    (∃ dropped, (∀ id ∈ dropped, world.device.HoldsDraft formId id) ∧
      ((∃ opened, (openForm services formId world).1 = .ok opened) →
        ∀ id, world.device.HoldsDraft formId id → id ∈ dropped) ∧
      (openForm services formId world).2.device.database.instances =
        world.device.database.instances.without dropped) ∧
    (openSavedForm services formId world).2.device.database.instances =
      world.device.database.instances ∧
    (∀ all, world.device.instancesByFormId formId = .ok all →
      ((∃ id, world.device.HoldsDraft formId id) → ∃ draft launched,
        world.device.LatestDraft formId draft ∧
        launched = services.launch (.resume draft .beginning) world.far ∧
        openSavedForm services formId world =
          ((launched.1.mapError OpeningError.launch).map fun _ => .resumed draft,
            { world with
              far := launched.2
              events := world.events ++ [.launched (.resume draft .beginning)] })) ∧
      ((∀ id, ¬ world.device.HoldsDraft formId id) →
        openSavedForm services formId world = openForm services formId world)) ∧
    (∀ problem, world.device.instancesByFormId formId = .error problem →
      openSavedForm services formId world = (.error (.store problem), world) ∧
      openForm services formId world = (.error (.store problem), world)) ∧
    (∃ far, Fetched services formId world.far far ∧
      Ends services far world.launches (openForm services formId world).1
        (openForm services formId world).2.far (openForm services formId world).2.launches) ∧
    (∃ far, Fetched services formId world.far far ∧
      Ends services far world.launches (openSavedForm services formId world).1
        (openSavedForm services formId world).2.far
        (openSavedForm services formId world).2.launches) ∧
    (∃ shown, Shown (openForm services formId world).1 shown ∧
      (openForm services formId world).2.launches = world.launches ++ shown) ∧
    ∃ shown, Shown (openSavedForm services formId world).1 shown ∧
      (openSavedForm services formId world).2.launches = world.launches ++ shown := by
  obtain ⟨blankFar, blankFetched, blankEnds⟩ := open_form_ends services formId world
  obtain ⟨savedFar, savedFetched, savedEnds⟩ := open_saved_form_ends services formId world
  refine ⟨open_form_discards keeps formId world, open_saved_form_keeps keeps formId world, ?_,
    fun problem => openings_of_refusal services, ⟨blankFar, blankFetched, blankEnds⟩,
    ⟨savedFar, savedFetched, savedEnds⟩, blankEnds.shown, savedEnds.shown⟩
  intro all answered
  rcases open_saved_form_of_answer services answered with ⟨draft, latest, resumed⟩ | ⟨none, blank⟩
  · refine ⟨fun _ => ⟨draft, _, latest, rfl, resumed⟩, fun none => ?_⟩
    exact absurd (holds_draft_of_stored latest.1) (none draft.id)
  · refine ⟨?_, fun _ => blank⟩
    rintro ⟨id, held⟩
    exact absurd held (none id)

/-- Two drafts that were changed at once, one that was changed before them, and a finalized
instance of the same form. -/
def draftsWorld : World Rehearsal.Stage where
  device :=
    Run.deviceWith
      [{ Run.waitingInstance "well" "/well/1.xml" with
          status := .incomplete, changed := .ofSeconds 60 },
        { Run.waitingInstance "well" "/well/2.xml" with
          status := .incomplete, changed := .ofSeconds 60 },
        { Run.waitingInstance "well" "/well/3.xml" with status := .incomplete },
        Run.waitingInstance "well" "/well/4.xml"] {}
  far := {}

theorem second_draft_resumed :
    (openSavedForm Rehearsal.services "well" draftsWorld).2.device.database.instances =
      draftsWorld.device.database.instances ∧
    ∃ draft launched, draft.id = 2 ∧ draftsWorld.device.LatestDraft "well" draft ∧
      launched = Rehearsal.services.launch (.resume draft .beginning) draftsWorld.far ∧
      openSavedForm Rehearsal.services "well" draftsWorld =
        ((launched.1.mapError OpeningError.launch).map fun _ => .resumed draft,
          { draftsWorld with
            far := launched.2
            events := draftsWorld.events ++ [.launched (.resume draft .beginning)] }) := by
  obtain ⟨_, kept, answered, _⟩ := openings_resume_or_discard Rehearsal.services
    Rehearsal.services_keep_instances "well" draftsWorld
  refine ⟨kept, ?_⟩
  cases listed : draftsWorld.device.instancesByFormId "well" with
  | error problem =>
      have counted : (draftsWorld.device.instancesByFormId "well").toOption.isSome = true := by
        decide +kernel
      rw [listed] at counted
      cases counted
  | ok all =>
      obtain ⟨draft, launched, latest, asked, resumed⟩ :=
        (answered all listed).1 ⟨1, _, rfl, rfl, rfl⟩
      refine ⟨draft, launched, ?_, latest, asked, resumed⟩
      have second : (openSavedForm Rehearsal.services "well" draftsWorld).1.toOption.map
          (fun opened => match opened with | .resumed filled => filled.id | .blank _ => 0) =
            some 2 := by decide +kernel
      rw [resumed, asked] at second
      exact Option.some.inj second

end Opening

end FieldPost
