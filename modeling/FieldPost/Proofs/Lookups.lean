import FieldPost.Proofs.OptedIn

/-!
The lookups of a selection. Whatever a form store answers, and at whatever place it fails, keeping
the answers for a form version selects what the plain filter selects, which looks up the form of
every instance afresh: the same instances in the same order, or the same error. Each version that
the plain filter gets to is looked up, and none of them twice.

A store that answers the same question in two ways within one selection is left out.
-/

namespace FieldPost.Selection

open FieldPost.Answers

variable {ε : Type}

/-- What a form store answers for the newest form of a version. -/
abbrev Lookup (ε : Type) := String → Option String → Except ε (Option Form)

namespace Lookup

def asks (lookup : Lookup ε) (key : Key) : Except ε Bool :=
  (lookup key.1 key.2).map fun form => (form.map Form.requestsAutoSend).getD false

/-- The form of an instance is looked up without a failure. -/
def Answers (lookup : Lookup ε) (filled : Instance) : Prop :=
  ∃ found, lookup filled.formId filled.formVersion = .ok found

/-- The form of an instance is there and asks for it to be sent. -/
def optsIn (lookup : Lookup ε) (filled : Instance) : Bool :=
  match lookup filled.formId filled.formVersion with
  | .ok (some form) => form.requestsAutoSend
  | _ => false

theorem asks_of_answers {lookup : Lookup ε} {filled : Instance} (answers : lookup.Answers filled) :
    lookup.asks (key filled) = .ok (lookup.optsIn filled) := by
  obtain ⟨found, answer⟩ := answers
  unfold asks optsIn
  rw [key, answer]
  cases found <;> rfl

theorem answers_iff (lookup : Lookup ε) (filled : Instance) :
    lookup.Answers filled ↔ ∃ wanted, lookup.asks (key filled) = .ok wanted := by
  constructor
  · intro answers
    exact ⟨_, asks_of_answers answers⟩
  · rintro ⟨wanted, asked⟩
    obtain ⟨found, answer, _⟩ := (map_eq_ok_iff _ _ _).mp asked
    exact ⟨found, answer⟩

theorem asks_eq_error_iff (lookup : Lookup ε) (filled : Instance) (error : ε) :
    lookup.asks (key filled) = .error error ↔
      lookup filled.formId filled.formVersion = .error error := by
  unfold asks
  rw [key]
  cases lookup filled.formId filled.formVersion <;> simp [Except.map]

/-- The plain filter gets as far as this instance. -/
def Reaches (lookup : Lookup ε) (listed : List Instance) (filled : Instance) : Prop :=
  ∃ before after, listed = before ++ filled :: after ∧ ∀ other ∈ before, lookup.Answers other

theorem not_reaches_nil (lookup : Lookup ε) (filled : Instance) : ¬ lookup.Reaches [] filled := by
  rintro ⟨before, after, split, _⟩
  exact List.append_ne_nil_of_right_ne_nil before (List.cons_ne_nil filled after) split.symm

theorem reaches_cons_iff (lookup : Lookup ε) (first : Instance) (rest : List Instance)
    (filled : Instance) :
    lookup.Reaches (first :: rest) filled ↔
      filled = first ∨ lookup.Answers first ∧ lookup.Reaches rest filled := by
  constructor
  · rintro ⟨before, after, split, answered⟩
    cases before with
    | nil =>
        cases split
        exact .inl rfl
    | cons other before =>
        cases split
        have behind := fun other member => answered other (List.mem_cons_of_mem _ member)
        exact .inr ⟨answered _ List.mem_cons_self, before, after, rfl, behind⟩
  · rintro (rfl | ⟨answers, before, after, rfl, answered⟩)
    · exact ⟨[], rest, rfl, by simp⟩
    · refine ⟨first :: before, after, rfl, ?_⟩
      intro other member
      rcases List.mem_cons.mp member with rfl | inside
      · exact answers
      · exact answered other inside

end Lookup

/-! ### The plain filter -/

section

variable {lookup : Lookup ε}

theorem plain_cons_of_answers {filled : Instance} (answers : lookup.Answers filled)
    (rest : List Instance) :
    plain lookup.asks (filled :: rest) =
      (plain lookup.asks rest).map (keepIf (lookup.optsIn filled) filled) := by
  rw [plain, Lookup.asks_of_answers answers]
  rfl

theorem plain_cons_of_failure {filled : Instance} {error : ε}
    (fails : lookup filled.formId filled.formVersion = .error error) (rest : List Instance) :
    plain lookup.asks (filled :: rest) = .error error := by
  rw [plain, (Lookup.asks_eq_error_iff lookup filled error).mpr fails]
  rfl

theorem not_answers_of_failure {filled : Instance} {error : ε}
    (fails : lookup filled.formId filled.formVersion = .error error) :
    ¬ lookup.Answers filled := by
  rintro ⟨found, answer⟩
  rw [fails] at answer
  cases answer

theorem plain_eq_ok_iff (listed kept : List Instance) :
    plain lookup.asks listed = .ok kept ↔
      (∀ filled ∈ listed, lookup.Answers filled) ∧ kept = listed.filter lookup.optsIn := by
  have filtered (answers : ∀ filled ∈ listed, lookup.Answers filled) :
      plain lookup.asks listed = .ok (listed.filter lookup.optsIn) :=
    plain_eq_filter lookup.optsIn listed fun filled member =>
      Lookup.asks_of_answers (answers filled member)
  constructor
  · intro selected
    have answers : ∀ filled ∈ listed, lookup.Answers filled := by
      clear filtered
      induction listed generalizing kept with
      | nil => simp
      | cons first rest induction =>
          obtain ⟨wanted, asked, narrowed⟩ := (bind_eq_ok_iff _ _ _).mp selected
          obtain ⟨others, later, _⟩ := (map_eq_ok_iff _ _ _).mp narrowed
          intro filled member
          rcases List.mem_cons.mp member with rfl | inside
          · exact (lookup.answers_iff filled).mpr ⟨wanted, asked⟩
          · exact induction others later filled inside
    refine ⟨answers, ?_⟩
    rw [filtered answers] at selected
    exact (Except.ok.inj selected).symm
  · rintro ⟨answers, rfl⟩
    exact filtered answers

/-- The error is that of the first lookup that fails. -/
theorem plain_eq_error_iff (listed : List Instance) (error : ε) :
    plain lookup.asks listed = .error error ↔ ∃ filled, lookup.Reaches listed filled ∧
      lookup filled.formId filled.formVersion = .error error := by
  induction listed with
  | nil =>
      refine iff_of_false nofun ?_
      rintro ⟨filled, reached, _⟩
      exact lookup.not_reaches_nil filled reached
  | cons first rest induction =>
      simp only [Lookup.reaches_cons_iff]
      cases answer : lookup first.formId first.formVersion with
      | error problem =>
          have unanswered := not_answers_of_failure answer
          rw [plain_cons_of_failure answer]
          constructor
          · intro same
            cases same
            exact ⟨first, .inl rfl, answer⟩
          · rintro ⟨filled, rfl | ⟨answers, _⟩, fails⟩
            · rw [answer] at fails
              rw [Except.error.inj fails]
            · exact absurd answers unanswered
      | ok found =>
          have answers : lookup.Answers first := ⟨found, answer⟩
          rw [plain_cons_of_answers answers, map_eq_error_iff, induction]
          constructor
          · rintro ⟨filled, reached, fails⟩
            exact ⟨filled, .inr ⟨answers, reached⟩, fails⟩
          · rintro ⟨filled, rfl | ⟨_, reached⟩, fails⟩
            · exact absurd answers (not_answers_of_failure fails)
            · exact ⟨filled, reached, fails⟩

/-! ### The lookups -/

variable {asks : Key → Except ε Bool} {known : Known} {filled : Instance} {rest : List Instance}

theorem remembering_of_met {wanted : Bool} (met : known.lookup (key filled) = some wanted) :
    remembering asks known (filled :: rest) =
      ((remembering asks known rest).1.map (keepIf wanted filled),
        (remembering asks known rest).2) := by
  simp only [remembering, met]

theorem remembering_of_answer {wanted : Bool} (new : known.lookup (key filled) = none)
    (answer : asks (key filled) = .ok wanted) :
    remembering asks known (filled :: rest) =
      ((remembering asks ((key filled, wanted) :: known) rest).1.map (keepIf wanted filled),
        key filled :: (remembering asks ((key filled, wanted) :: known) rest).2) := by
  simp only [remembering, new, answer]

theorem remembering_of_failure {error : ε} (new : known.lookup (key filled) = none)
    (failure : asks (key filled) = .error error) :
    remembering asks known (filled :: rest) = (.error error, [key filled]) := by
  simp only [remembering, new, failure]

theorem lookup_learned_eq_none_iff (known : Known) (learned : Key) (wanted : Bool) (asked : Key) :
    List.lookup asked ((learned, wanted) :: known) = none ↔
      asked ≠ learned ∧ known.lookup asked = none := by
  rw [List.lookup_cons]
  by_cases same : asked = learned
  · simp [same]
  · simp [same, beq_false_of_ne same]

/-- Of the versions that the plain filter gets to, those that are not known are looked up. -/
theorem mem_asked_iff {known : Known} (right : known.Right lookup.asks) (listed : List Instance)
    (asked : Key) :
    asked ∈ (remembering lookup.asks known listed).2 ↔
      known.lookup asked = none ∧ ∃ filled, lookup.Reaches listed filled ∧ key filled = asked := by
  induction listed generalizing known with
  | nil =>
      refine iff_of_false (List.not_mem_nil) ?_
      rintro ⟨_, filled, reached, _⟩
      exact lookup.not_reaches_nil filled reached
  | cons first rest induction =>
      simp only [Lookup.reaches_cons_iff]
      cases remembered : known.lookup (key first) with
      | some wanted =>
          -- A version that is met again was answered before, so the plain filter goes on as well.
          have answers := (lookup.answers_iff first).mpr ⟨wanted, right _ _ remembered⟩
          rw [remembering_of_met remembered, induction right]
          constructor
          · rintro ⟨new, filled, reached, same⟩
            exact ⟨new, filled, .inr ⟨answers, reached⟩, same⟩
          · rintro ⟨new, filled, rfl | ⟨_, reached⟩, rfl⟩
            · rw [remembered] at new
              cases new
            · exact ⟨new, filled, reached, rfl⟩
      | none =>
          cases answer : lookup.asks (key first) with
          | error error =>
              have fails := (lookup.asks_eq_error_iff first error).mp answer
              rw [remembering_of_failure remembered answer, List.mem_singleton]
              constructor
              · rintro rfl
                exact ⟨remembered, first, .inl rfl, rfl⟩
              · rintro ⟨_, filled, rfl | ⟨answers, _⟩, rfl⟩
                · rfl
                · exact absurd answers (not_answers_of_failure fails)
          | ok wanted =>
              have answers := (lookup.answers_iff first).mpr ⟨wanted, answer⟩
              rw [remembering_of_answer remembered answer, List.mem_cons,
                induction (right.learn answer), lookup_learned_eq_none_iff]
              constructor
              · rintro (rfl | ⟨⟨_, new⟩, filled, reached, same⟩)
                · exact ⟨remembered, first, .inl rfl, rfl⟩
                · exact ⟨new, filled, .inr ⟨answers, reached⟩, same⟩
              · rintro ⟨new, filled, rfl | ⟨_, reached⟩, rfl⟩
                · exact .inl rfl
                · by_cases same : key filled = key first
                  · exact .inl same
                  · exact .inr ⟨⟨same, new⟩, filled, reached, rfl⟩

theorem asked_nodup {known : Known} (listed : List Instance) :
    (remembering asks known listed).2.Nodup ∧
      ∀ asked ∈ (remembering asks known listed).2, known.lookup asked = none := by
  induction listed generalizing known with
  | nil => exact ⟨.nil, nofun⟩
  | cons filled rest induction =>
      cases remembered : known.lookup (key filled) with
      | some wanted =>
          rw [remembering_of_met remembered]
          exact induction
      | none =>
          cases answer : asks (key filled) with
          | error error =>
              rw [remembering_of_failure remembered answer]
              exact ⟨List.nodup_singleton _, by simpa using remembered⟩
          | ok wanted =>
              obtain ⟨distinct, new⟩ := @induction ((key filled, wanted) :: known)
              simp only [lookup_learned_eq_none_iff] at new
              rw [remembering_of_answer remembered answer, List.nodup_cons]
              refine ⟨⟨fun again => (new _ again).1 rfl, distinct⟩, ?_⟩
              intro asked member
              rcases List.mem_cons.mp member with rfl | later
              · exact remembered
              · exact (new asked later).2

/-- What a store would answer for other versions does not matter. -/
theorem remembering_congr {others : Key → Except ε Bool} {known : Known} (listed : List Instance)
    (same : ∀ asked ∈ (remembering asks known listed).2, others asked = asks asked) :
    remembering others known listed = remembering asks known listed := by
  induction listed generalizing known with
  | nil => rfl
  | cons filled rest induction =>
      cases remembered : known.lookup (key filled) with
      | some wanted =>
          rw [remembering_of_met remembered] at same
          rw [remembering_of_met remembered, remembering_of_met remembered, induction same]
      | none =>
          cases answer : asks (key filled) with
          | error error =>
              rw [remembering_of_failure remembered answer] at same
              have other := same _ List.mem_cons_self
              rw [answer] at other
              rw [remembering_of_failure remembered answer,
                remembering_of_failure remembered other]
          | ok wanted =>
              rw [remembering_of_answer remembered answer] at same
              have other := same _ List.mem_cons_self
              have later := fun asked member => same asked (List.mem_cons_of_mem _ member)
              rw [answer] at other
              rw [remembering_of_answer remembered answer,
                remembering_of_answer remembered other, induction later]

end

/-- Keeping answers selects what looking up every form afresh selects, with no version looked up
twice. -/
structure LikePlain (lookup : Lookup ε) (listed : List Instance) : Prop where
  same : (remembering lookup.asks [] listed).1 = plain lookup.asks listed
  selected : ∀ kept, plain lookup.asks listed = .ok kept ↔
    (∀ filled ∈ listed, lookup.Answers filled) ∧ kept = listed.filter lookup.optsIn
  failed : ∀ error, plain lookup.asks listed = .error error ↔
    ∃ filled, lookup.Reaches listed filled ∧
      lookup filled.formId filled.formVersion = .error error
  once : (remembering lookup.asks [] listed).2.Nodup
  /-- Looked up are the versions that the plain filter gets to. -/
  asked : ∀ asked, asked ∈ (remembering lookup.asks [] listed).2 ↔
    ∃ filled, lookup.Reaches listed filled ∧ key filled = asked
  others : ∀ other : Lookup ε,
    (∀ asked ∈ (remembering lookup.asks [] listed).2,
      other asked.1 asked.2 = lookup asked.1 asked.2) →
    remembering other.asks [] listed = remembering lookup.asks [] listed

theorem like_plain (lookup : Lookup ε) (listed : List Instance) : LikePlain lookup listed := by
  have right := Known.right_nil lookup.asks
  refine
    { same := remembering_eq_plain lookup.asks right listed
      selected := plain_eq_ok_iff listed
      failed := plain_eq_error_iff listed
      once := (asked_nodup listed).1
      asked := ?_
      others := ?_ }
  · intro asked
    rw [mem_asked_iff right]
    exact and_iff_right rfl
  · intro other same
    apply remembering_congr
    intro asked member
    unfold Lookup.asks
    rw [same asked member]

/-- With settings that send nothing of themselves, the selection over a device is the plain filter
of what waits there; and whatever lookups a filter is given, remembering their answers changes
nothing but their number. -/
theorem selection_like_plain (lookup : Lookup ε) (listed : List Instance) :
    LikePlain lookup listed ∧
      ∀ (settings : Settings) (device : Device), settings.autoSend = .off →
        instances settings device =
          device.instancesByStatus Status.finalized >>=
            plain (Lookup.asks device.latestFormVersion) := by
  refine ⟨like_plain lookup listed, ?_⟩
  intro settings device off
  unfold instances
  cases device.instancesByStatus Status.finalized with
  | error error => rfl
  | ok finalized =>
      change (if settings.autoSendEnabled then _ else _) = _
      rw [Settings.auto_send_disabled off, if_neg Bool.false_ne_true]
      exact (like_plain device.latestFormVersion finalized).same

/-- Two instances of a version that asks, and two without a version. -/
def repeatedInstances : List Instance :=
  [{ Run.waitingInstance "well" "/well/1.xml" with formVersion := some "1" },
    Run.waitingInstance "well" "/well/2.xml",
    { Run.waitingInstance "well" "/well/3.xml" with formVersion := some "1" },
    Run.waitingInstance "well" "/well/4.xml"]

def repeatedDevice : Device :=
  StoreChange.play (.fresh {} (.ofSeconds 0))
    ((.ofSeconds 0, .insertForm (Run.recordedForm "well" 1000 (some true))) ::
      repeatedInstances.map fun filled => (.ofSeconds 0, .insertInstance filled))

/-- The store of the device, as if it failed for every other form. -/
def otherwiseFailing : Lookup StoreError := fun formId version =>
  if formId = "well" then repeatedDevice.latestFormVersion formId version
  else .error (.backend "out of reach")

theorem repeated_versions_looked_up_once :
    (remembering (Lookup.asks repeatedDevice.latestFormVersion) [] repeatedInstances).2 =
        [("well", some "1"), ("well", none)] ∧
      remembering otherwiseFailing.asks [] repeatedInstances =
        remembering (Lookup.asks repeatedDevice.latestFormVersion) [] repeatedInstances ∧
      instances {} repeatedDevice =
        repeatedDevice.instancesByStatus Status.finalized >>=
          plain (Lookup.asks repeatedDevice.latestFormVersion) ∧
      (instances {} repeatedDevice).toOption.map (·.map (·.id)) = some [1, 3] := by
  obtain ⟨like, selected⟩ :=
    selection_like_plain repeatedDevice.latestFormVersion repeatedInstances
  have asked : (remembering (Lookup.asks repeatedDevice.latestFormVersion) []
      repeatedInstances).2 = [("well", some "1"), ("well", none)] := by decide +kernel
  refine ⟨asked, ?_, selected {} repeatedDevice rfl, by decide +kernel⟩
  apply like.others
  intro key member
  rw [asked] at member
  have well : key.1 = "well" := by
    rcases List.mem_cons.mp member with rfl | later
    · rfl
    · rw [List.mem_singleton.mp later]
  exact if_pos well

end FieldPost.Selection
