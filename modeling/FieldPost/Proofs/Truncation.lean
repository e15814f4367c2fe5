import FieldPost.Markup.Leaves
import FieldPost.Proofs.Answers
import FieldPost.Proofs.Scanning

/-!
Forms that end too early. The end of a text is no fault to the reader, whatever is still open
there: what it accepts can be balanced by end tags that the text does not have, and the beginning
of an accepted text is accepted too, with the fields that ended in it, unless it ends within
markup. Nothing is said of texts that are not accepted.
-/

namespace FieldPost.Markup

open FieldPost.Answers

/-! ### Balance -/

/-- An event that neither begins nor ends an element. -/
def Event.standsAlone : Event → Bool
  | .start _ => false
  | .finish _ => false
  | .empty _ => true
  | .text _ => true
  | .reference _ => true

/-- Events in which every element that begins also ends, innermost first. -/
inductive Balanced : List Event → Prop
  | nil : Balanced []
  | alone {event : Event} (stands : event.standsAlone = true) {rest : List Event}
      (after : Balanced rest) : Balanced (event :: rest)
  | element (name : List Char) {body rest : List Event} (inside : Balanced body)
      (after : Balanced rest) : Balanced (.start name :: (body ++ .finish name :: rest))

/-- The names that are open after the events, innermost first. -/
def stillOpen : List (List Char) → List Event → List (List Char)
  | names, [] => names
  | names, .start name :: rest => stillOpen (name :: names) rest
  | names, .finish _ :: rest => stillOpen names.tail rest
  | names, _ :: rest => stillOpen names rest

/-- Balanced events, but that they also end the elements of these names. -/
def Closes : List (List Char) → List Event → Prop
  | [], events => Balanced events
  | name :: names, events => ∃ body rest, Balanced body ∧ Closes names rest ∧
      events = body ++ .finish name :: rest

theorem Balanced.append {first second : List Event} (early : Balanced first)
    (late : Balanced second) : Balanced (first ++ second) := by
  induction early with
  | nil => exact late
  | alone stands _ induction => exact .alone stands induction
  | @element name body rest inside _ _ induction =>
      rw [List.cons_append, List.append_assoc]
      exact .element name inside induction

theorem Closes.alone {names : List (List Char)} {event : Event} {events : List Event}
    (stands : event.standsAlone = true) (closes : Closes names events) :
    Closes names (event :: events) := by
  cases names with
  | nil => exact Balanced.alone stands closes
  | cons name names =>
      obtain ⟨body, rest, balanced, later, rfl⟩ := closes
      exact ⟨event :: body, rest, .alone stands balanced, later, rfl⟩

theorem Closes.start {names : List (List Char)} {name : List Char} {events : List Event}
    (closes : Closes (name :: names) events) : Closes names (.start name :: events) := by
  obtain ⟨body, rest, balanced, later, rfl⟩ := closes
  cases names with
  | nil => exact .element name balanced later
  | cons outer names =>
      obtain ⟨between, last, middle, closes, rfl⟩ := later
      refine ⟨.start name :: (body ++ .finish name :: between), last,
        .element name balanced middle, closes, ?_⟩
      simp

theorem closes_finish (names : List (List Char)) : Closes names (names.map .finish) := by
  induction names with
  | nil => exact .nil
  | cons name names induction => exact ⟨[], names.map .finish, .nil, induction, rfl⟩

theorem still_open_of_balanced {body : List Event} (balanced : Balanced body)
    (names : List (List Char)) (rest : List Event) :
    stillOpen names (body ++ rest) = stillOpen names rest := by
  induction balanced generalizing names rest with
  | nil => rfl
  | @alone event stands _ _ induction =>
      cases event <;> first | exact induction names rest | cases stands
  | @element name body after _ _ inner outer =>
      rw [List.cons_append, List.append_assoc]
      exact (inner (name :: names) _).trans (outer names rest)

/-- Whatever was read, the end tags of what is still open balance it. -/
theorem events_closed (names : List (List Char)) (tokens : List Token) :
    Closes names ((eventsFrom names tokens).1 ++
      (stillOpen names (eventsFrom names tokens).1).map .finish) := by
  induction tokens generalizing names with
  | nil => exact closes_finish names
  | cons token rest induction =>
      cases token with
      | text chars => exact .alone rfl (induction names)
      | reference content => exact .alone rfl (induction names)
      | emptyTag content => exact .alone rfl (induction names)
      | openTag content => exact (induction (tagName content :: names)).start
      | closeTag content =>
          cases names with
          | nil => exact closes_finish []
          | cons expected names =>
              by_cases same : expected = endName content
              · simp only [eventsFrom, if_pos same]
                exact ⟨[], _, .nil, induction names, rfl⟩
              · simp only [eventsFrom, if_neg same]
                exact closes_finish (expected :: names)
      | skipped => exact induction names
      | fault fault => exact closes_finish names

/-! ### Beginnings -/

/-- The events of the beginning of a text, and those of the whole. -/
inductive Begins : List Event → List Event → Prop
  | ended (whole : List Event) : Begins [] whole
  | text (chars more : List Char) (whole : List Event) :
      Begins [.text chars] (.text (chars ++ more) :: whole)
  | same (event : Event) {short whole : List Event} (rest : Begins short whole) :
      Begins (event :: short) (event :: whole)

theorem events_begin {short whole : List Token} (cut : CutOff short whole)
    (names : List (List Char)) (unfaulted : (eventsFrom names whole).2 = none) :
    Begins (eventsFrom names short).1 (eventsFrom names whole).1 ∧
      ∀ fault, (eventsFrom names short).2 = some fault ↔ .fault fault ∈ short := by
  induction cut generalizing names with
  | ended whole => exact ⟨.ended _, by simp [eventsFrom]⟩
  | unfinished fault whole => exact ⟨.ended _, by simp [eventsFrom, eq_comm]⟩
  | text chars more whole => exact ⟨.text chars more _, by simp [eventsFrom]⟩
  | @same token short whole clean rest induction =>
      have later : ∀ fault, Token.fault fault ∈ token :: short ↔ Token.fault fault ∈ short :=
        fun fault => List.mem_cons.trans (or_iff_right (clean fault).symm)
      simp only [later]
      cases token with
      | text chars => exact And.imp_left (.same _) (induction names unfaulted)
      | reference content => exact And.imp_left (.same _) (induction names unfaulted)
      | emptyTag content => exact And.imp_left (.same _) (induction names unfaulted)
      | openTag content =>
          exact And.imp_left (.same _) (induction (tagName content :: names) unfaulted)
      | closeTag content =>
          cases names with
          | nil => cases unfaulted
          | cons expected names =>
              by_cases same : expected = endName content
              · simp only [eventsFrom, if_pos same] at unfaulted ⊢
                exact And.imp_left (.same _) (induction names unfaulted)
              · simp only [eventsFrom, if_neg same] at unfaulted
                cases unfaulted
      | skipped => exact induction names unfaulted
      | fault fault => exact (clean fault rfl).elim

namespace LeafState

theorem fields_of_mark_parent (state : LeafState) : state.markParent.fields = state.fields := by
  unfold markParent
  split <;> rfl

theorem fields_of_add_text (state : LeafState) (text : List Char) :
    (state.addText text).fields = state.fields := by
  unfold addText
  split <;> rfl

theorem fields_of_step {state after : LeafState} {event : Event}
    (stepped : state.step event = .ok after) : state.fields <+: after.fields := by
  cases event with
  | start name =>
      cases stepped
      exact (fields_of_mark_parent state).symm ▸ List.prefix_rfl
  | empty name =>
      simp only [step] at stepped
      split at stepped <;> cases stepped
      · exact List.prefix_rfl
      · rw [← fields_of_mark_parent state]
        exact List.prefix_append _ _
  | text chars =>
      cases stepped
      exact (fields_of_add_text state chars).symm ▸ List.prefix_rfl
  | reference content =>
      simp only [step] at stepped
      split at stepped
      · cases stepped
        exact List.prefix_rfl
      · split at stepped <;> cases stepped
        exact (fields_of_add_text state _).symm ▸ List.prefix_rfl
  | finish name =>
      simp only [step] at stepped
      split at stepped
      · cases stepped
        exact List.prefix_rfl
      · split at stepped <;> cases stepped
        · exact List.prefix_rfl
        · exact List.prefix_append _ _

theorem fields_of_run {state final : LeafState} {events : List Event}
    (ran : state.run events = .ok final) : state.fields <+: final.fields := by
  induction events generalizing state with
  | nil =>
      cases ran
      exact List.prefix_rfl
  | cons event rest induction =>
      obtain ⟨after, stepped, later⟩ := (bind_eq_ok_iff _ _ _).mp ran
      exact (fields_of_step stepped).trans (induction later)

/-- A run over a beginning gets as far as the whole run got there. -/
theorem run_of_begins {short whole : List Event} (begins : Begins short whole)
    {state final : LeafState} (ran : state.run whole = .ok final) :
    ∃ reached, state.run short = .ok reached ∧ reached.fields <+: final.fields := by
  induction begins generalizing state with
  | ended whole => exact ⟨state, rfl, fields_of_run ran⟩
  | text chars more whole =>
      refine ⟨state.addText chars, rfl, ?_⟩
      rw [fields_of_add_text]
      exact fields_of_run ran
  | same event rest induction =>
      obtain ⟨after, stepped, later⟩ := (bind_eq_ok_iff _ _ _).mp ran
      obtain ⟨reached, run, fields⟩ := induction later
      exact ⟨reached, (bind_eq_ok_iff _ _ _).mpr ⟨after, stepped, run⟩, fields⟩

end LeafState

/-! ### Accepted texts -/

/-- The text ends within markup, or holds something that is none. -/
def Unfinished (text : String) : Prop := ∃ fault, Token.fault fault ∈ scan text.toList

/-- How many elements lie directly in the document, `depth` being how many are open. -/
def roots : (depth : Nat) → List Event → Nat
  | _, [] => 0
  | 0, .start _ :: rest => roots 1 rest + 1
  | depth + 1, .start _ :: rest => roots (depth + 2) rest
  | 0, .empty _ :: rest => roots 0 rest + 1
  | depth, .finish _ :: rest => roots (depth - 1) rest
  | depth, _ :: rest => roots depth rest

/-- A whole document: every element that begins ends, and one element has all the others in it. -/
structure Complete (text : String) : Prop where
  unfaulted : (events text.toList).2 = none
  balanced : Balanced (events text.toList).1
  oneRoot : roots 0 (events text.toList).1 = 1

theorem leaf_fields_eq_ok_iff (text : List Char) (fields : List Field) :
    leafFields text = .ok fields ↔ (events text).2 = none ∧
      ∃ final, ({} : LeafState).run (events text).1 = .ok final ∧ final.fields = fields := by
  unfold leafFields
  rw [bind_eq_ok_iff]
  cases (events text).2 with
  | none => simp
  | some fault => simp

theorem leaf_fields_of_beginning {before after : List Char} {fields : List Field}
    (read : leafFields (before ++ after) = .ok fields) :
    ((∃ kept, leafFields before = .ok kept) ↔ ∀ fault, Token.fault fault ∉ scan before) ∧
      ∀ kept, leafFields before = .ok kept → kept <+: fields := by
  obtain ⟨unfaulted, final, ran, rfl⟩ := (leaf_fields_eq_ok_iff _ _).mp read
  have ⟨begins, faults⟩ := events_begin (scan_cut_off before after) [] unfaulted
  obtain ⟨reached, run, within⟩ := LeafState.run_of_begins begins ran
  have answered : ∀ kept, leafFields before = .ok kept ↔
      (events before).2 = none ∧ reached.fields = kept := by
    intro kept
    rw [leaf_fields_eq_ok_iff]
    exact and_congr_right fun _ => by simp [events, run]
  have whole : (events before).2 = none ↔ ∀ fault, Token.fault fault ∉ scan before := by
    rw [Option.eq_none_iff_forall_ne_some]
    exact forall_congr' fun fault => not_congr (faults fault)
  constructor
  · simp only [answered, exists_and_left, exists_eq', and_true, whole]
  · rintro kept read
    exact ((answered kept).mp read).2 ▸ within

/-- What holds of a text in which fields were found. -/
structure Accepted (text : String) (values : List (String × String)) : Prop where
  unfaulted : (events text.toList).2 = none
  closable : Balanced ((events text.toList).1 ++
    (stillOpen [] (events text.toList).1).map .finish)
  complete_iff : Complete text ↔
    stillOpen [] (events text.toList).1 = [] ∧ roots 0 (events text.toList).1 = 1
  beginning : ∀ before after, text = before ++ after →
    ((∃ kept, leafValues before = .ok kept) ↔ ¬ Unfinished before) ∧
      ∀ kept, leafValues before = .ok kept → kept <+: values

/-- An accepted text is balanced by the end tags of what it leaves open, and is a whole document
exactly if it leaves nothing open and has one root. A beginning of it is accepted unless it ends
within markup, and then gives the fields that end in it. -/
theorem accepted_of_leaf_values (text : String) (values : List (String × String))
    (read : leafValues text = .ok values) : Accepted text values := by
  obtain ⟨fields, found, rfl⟩ := (map_eq_ok_iff _ _ _).mp read
  have unfaulted := ((leaf_fields_eq_ok_iff _ _).mp found).1
  have closable : Balanced ((events text.toList).1 ++
      (stillOpen [] (events text.toList).1).map .finish) := events_closed [] (scan text.toList)
  refine ⟨unfaulted, closable, ⟨?_, ?_⟩, ?_⟩
  · rintro ⟨_, balanced, oneRoot⟩
    have nothing := still_open_of_balanced balanced [] []
    rw [List.append_nil] at nothing
    exact ⟨nothing, oneRoot⟩
  · rintro ⟨nothing, oneRoot⟩
    rw [nothing, List.map_nil, List.append_nil] at closable
    exact ⟨unfaulted, closable, oneRoot⟩
  · rintro before after rfl
    rw [String.toList_append] at found
    have ⟨answered, within⟩ := leaf_fields_of_beginning found
    constructor
    · rw [Unfinished, not_exists, ← answered]
      simp only [leafValues, map_eq_ok_iff]
      exact ⟨fun ⟨_, kept, read, _⟩ => ⟨kept, read⟩, fun ⟨kept, read⟩ => ⟨_, kept, read, rfl⟩⟩
    · rintro kept accepted
      obtain ⟨first, read, rfl⟩ := (map_eq_ok_iff _ _ _).mp accepted
      exact (within first read).map _

/-- A form that breaks off in its root is accepted. -/
theorem broken_off_form_accepted :
    ¬ ∀ (text : String) (values : List (String × String)),
      leafValues text = .ok values → Complete text := by
  intro claimed
  have complete := claimed "<data><name>Ada</name>" [("name", "Ada")] (by decide +kernel)
  have nothing := still_open_of_balanced complete.balanced [] []
  rw [List.append_nil] at nothing
  revert nothing
  decide +kernel

theorem whole_form_accepted :
    leafValues "<data><name>Ada</name></data>" = .ok [("name", "Ada")] ∧
      Complete "<data><name>Ada</name></data>" ∧
      ¬ Unfinished "<data><name>Ada</name>" := by
  have read : leafValues "<data><name>Ada</name></data>" = .ok [("name", "Ada")] := by
    decide +kernel
  have accepted := accepted_of_leaf_values _ _ read
  refine ⟨read, accepted.complete_iff.mpr ⟨by decide +kernel, by decide +kernel⟩, ?_⟩
  have kept : leafValues "<data><name>Ada</name>" = .ok [("name", "Ada")] := by decide +kernel
  exact (accepted.beginning "<data><name>Ada</name>" "</data>" (by decide +kernel)).1.mp ⟨_, kept⟩

end FieldPost.Markup
