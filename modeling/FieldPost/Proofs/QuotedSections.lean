import FieldPost.Proofs.Messages

/-!
Characters in quoted sections against the same characters written one by one. Both readers skip
quoted sections, so a field or a message is what stands beside them. The results of the two ways
to write are given for every place, and with them when they are the same; which of the two a form
has is not said.
-/

namespace FieldPost.Markup

open FieldPost.Text

/-! ### Earlier fields -/

namespace LeafState

/-- The state with other fields before its own. -/
def behind (earlier : List Field) (state : LeafState) : LeafState :=
  { state with fields := earlier ++ state.fields }

variable (earlier : List Field) (state : LeafState)

theorem step_behind (event : Event) :
    (state.behind earlier).step event = (state.step event).map (behind earlier) := by
  rcases state with ⟨_ | ⟨current, outer⟩, fields⟩
  · cases event <;> rfl
  · cases event with
    | start name => rfl
    | empty name => simp [step, behind, markParent, addField, Except.map]
    | text chars => rfl
    | reference content =>
        simp only [step, behind, List.isEmpty_cons]
        cases resolve content <;> rfl
    | finish name =>
        simp only [step, behind, addField]
        split <;> simp [Except.map, behind]

theorem run_behind (events : List Event) :
    (state.behind earlier).run events = (state.run events).map (behind earlier) := by
  induction events generalizing state with
  | nil => rfl
  | cons event rest induction =>
      simp only [run, step_behind]
      cases state.step event with
      | error problem => rfl
      | ok next => exact induction next

theorem open_length_add_text (said : List Char) :
    (state.addText said).openElements.length = state.openElements.length := by
  rcases state with ⟨_ | ⟨current, outer⟩, fields⟩ <;> rfl

theorem open_length_mark_parent :
    state.markParent.openElements.length = state.openElements.length := by
  rcases state with ⟨_ | ⟨current, outer⟩, fields⟩ <;> rfl

theorem add_text_nil : state.addText [] = state := by
  rcases state with ⟨_ | ⟨current, outer⟩, fields⟩
  · rfl
  · simp [addText]

end LeafState

section

variable (names : List (List Char)) (state : LeafState)

/-- What was a field already is one of the fields whatever comes, and matters to no other. -/
theorem read_behind (earlier : List Field) (text : List Char) :
    readOn names (state.behind earlier) text =
      (readOn names state text).map fun later => earlier ++ later := by
  simp only [readOn, readTokens, LeafState.run_behind]
  cases state.run (eventsFrom names (tokens text)).1 with
  | error problem => rfl
  | ok read => cases (eventsFrom names (tokens text)).2 <;> rfl

/-! ### Reading passages -/

theorem read_carried {said written : List Char} (carries : Carries said written)
    (rest : List Char) :
    readOn names state (written ++ rest) = readOn names (state.addText said) rest := by
  rcases carries.literal_or_reference with ⟨char, rfl, rfl, plain⟩ | ⟨content, rfl, plain, resolved⟩
  · exact read_literal names state plain rest
  · exact read_reference names state plain resolved rest

theorem read_skipped {written : List Char} (skipped : Skipped written) (rest : List Char) :
    readOn names state (written ++ rest) = readOn names state rest := by
  rw [readOn, tokens_of_skipped skipped]
  rfl

end

/-- A mark at the beginning belongs to no field, as any character outside the root. -/
theorem read_without_mark (text : List Char) :
    readOn [] {} (withoutMark text) = readOn [] {} text := by
  unfold withoutMark
  split
  · exact (read_literal [] {} rfl _).symm
  · rfl

/-- Any name. -/
def Any (_ : List Char) : Prop := True

/-- No name, so that there are no tags. -/
def Nothing (_ : List Char) : Prop := False

section

variable {names : List Char → Prop} {before after : List (List Char)} {said text : List Char}

/-- After a passage the reader is in a state that what follows has no part in. -/
theorem read_passage (passage : Passage names Skipped before said after text) (state : LeafState)
    (depth : state.openElements.length = before.length) :
    ∃ later : LeafState, later.openElements.length = after.length ∧
      ∀ rest, readOn before state (text ++ rest) = readOn after later rest := by
  induction passage generalizing state with
  | nil => exact ⟨state, depth, fun _ => rfl⟩
  | @characters before _ first said written text carries _ induction =>
      obtain ⟨later, still, reads⟩ := induction (state.addText first)
        ((state.open_length_add_text first).trans depth)
      refine ⟨later, still, fun rest => ?_⟩
      rw [List.append_assoc, read_carried before state carries, reads]
  | @skipped before _ said written text skipped _ induction =>
      obtain ⟨later, still, reads⟩ := induction state depth
      refine ⟨later, still, fun rest => ?_⟩
      rw [List.append_assoc, read_skipped before state skipped, reads]
  | @emptyTag before _ name tag attributes said text _ named attributed _ induction =>
      rcases state with ⟨_ | ⟨current, outer⟩, fields⟩
      · obtain ⟨later, still, reads⟩ := induction ⟨[], fields⟩ depth
        refine ⟨later, still, fun rest => ?_⟩
        rw [empty_tag_append, read_empty_root before named attributed, reads]
      · obtain ⟨later, still, reads⟩ := induction
          ⟨{ current with hasChildren := true } :: outer, fields ++ [(name, [])]⟩ depth
        refine ⟨later, still, fun rest => ?_⟩
        rw [empty_tag_append, read_empty_tag before named attributed, reads]
  | @startTag before _ name tag attributes said text _ named attributed _ induction =>
      have deeper : state.markParent.openElements.length + 1 = before.length + 1 :=
        congrArg Nat.succ (state.open_length_mark_parent.trans depth)
      obtain ⟨later, still, reads⟩ := induction
        { state.markParent with
          openElements := { name } :: state.markParent.openElements } deeper
      refine ⟨later, still, fun rest => ?_⟩
      rw [start_tag_append, read_open_tag before state named attributed, reads]
  | @endTag before _ name tag gap said text _ named blank _ induction =>
      rcases state with ⟨_ | ⟨current, outer⟩, fields⟩
      · cases depth
      · obtain ⟨later, still, reads⟩ := induction ⟨outer, fields ++
          if current.hasChildren || outer.isEmpty then [] else [(current.name, trim current.text)]⟩
          (Nat.succ.inj depth)
        refine ⟨later, still, fun rest => ?_⟩
        rw [end_tag_append, read_end_tag before named blank, reads]

/-- A passage without tags adds what it says to the text of the innermost element. -/
theorem read_text (passage : Passage Nothing Skipped before said after text) (state : LeafState)
    (rest : List Char) :
    readOn before state (text ++ rest) = readOn after (state.addText said) rest := by
  induction passage generalizing state with
  | nil => rw [state.add_text_nil, List.nil_append]
  | @characters before _ first said written text carries _ induction =>
      rw [List.append_assoc, read_carried before state carries, induction,
        LeafState.add_text_append]
  | @skipped before _ said written text skipped _ induction =>
      rw [List.append_assoc, read_skipped before state skipped, induction]
  | emptyTag allowed => exact allowed.elim
  | startTag allowed => exact allowed.elim
  | endTag allowed => exact allowed.elim

end

/-! ### One element -/

/-- The field that an element is with this text, the outermost being none. -/
def Place.field {names skips : List Char → Prop} {name : List Char}
    (place : Place names skips name) (said : List Char) : List Field :=
  if place.opens = [] then [] else [(name, trim said)]

def shown (fields : List Field) : List (String × String) :=
  fields.map fun field => (String.ofList field.1, String.ofList field.2)

/-- Of the fields of a document only one depends on the text of an element without elements. -/
theorem leaf_values_at {name : List Char} (leaf : Place Any Skipped name) (after : List Char) :
    ∃ (values : List (String × String)) (more : Except LeafProblem (List (String × String))),
      ∀ {said content : List Char},
        Passage Nothing Skipped (leaf.tag :: leaf.opens) said (leaf.tag :: leaf.opens) content →
          leafValues (String.ofList (leaf.document content after)) =
            more.map fun later => values ++ shown (leaf.field said) ++ later := by
  obtain ⟨outer, depth, reads⟩ := read_passage leaf.begins {} rfl
  let marked := outer.markParent
  refine ⟨shown marked.fields,
    (readOn leaf.opens ⟨marked.openElements, []⟩ after).map shown, ?_⟩
  intro said content passage
  have outermost : marked.openElements.isEmpty = decide (leaf.opens = []) := by
    have same : marked.openElements.length = leaf.opens.length :=
      outer.open_length_mark_parent.trans depth
    rw [Bool.eq_iff_iff, decide_eq_true_eq, List.isEmpty_iff, ← List.length_eq_zero_iff, same,
      List.length_eq_zero_iff]
  have field : (if false || marked.openElements.isEmpty then [] else [(name, trim said)]) =
      leaf.field said := by
    rw [Bool.false_or, outermost, Place.field]
    simp
  have fields : leafFields (leaf.document content after) =
      (readOn leaf.opens ⟨marked.openElements, []⟩ after).map
        fun later => marked.fields ++ leaf.field said ++ later := by
    calc
      _ = readOn leaf.opens outer _ := by
        rw [leaf_fields_eq, read_without_mark]
        exact reads _
      _ = readOn (leaf.tag :: leaf.opens) ⟨{ name } :: marked.openElements, marked.fields⟩ _ :=
        read_open_tag leaf.opens outer leaf.named leaf.attributed _
      _ = readOn (leaf.tag :: leaf.opens)
          ⟨{ name, text := said } :: marked.openElements, marked.fields⟩ _ :=
        read_text passage _ _
      _ = readOn leaf.opens ⟨marked.openElements, marked.fields ++ leaf.field said⟩ after := by
        rw [read_end_tag leaf.opens leaf.named leaf.blank, field]
      _ = _ := by
        rw [← read_behind]
        simp [LeafState.behind]
  rw [leafValues, String.toList_ofList, fields]
  cases readOn leaf.opens ⟨marked.openElements, []⟩ after with
  | error problem => rfl
  | ok later => simp [Except.map, shown]

/-! ### Two ways to write -/

/-- What stands in an element before and behind some characters. -/
structure Sides (names : List Char → Prop) {others skips : List Char → Prop} {name : List Char}
    (place : Place others skips name) where
  first : List Char
  early : List Char
  inner : List (List Char)
  before : Passage names Skipped (place.tag :: place.opens) first inner early
  second : List Char
  late : List Char
  behind : Passage names Skipped inner second (place.tag :: place.opens) late

namespace Sides

variable {names others skips : List Char → Prop} {name content escaped : List Char}
  {place : Place others skips name} (sides : Sides names place)

def around (middle : List Char) : List Char := sides.early ++ (middle ++ sides.late)

def saying (middle : List Char) : List Char := sides.first ++ (middle ++ sides.second)

theorem passage_quoted (ends : ¬ "]]>".toList <:+: content) :
    Passage names Skipped (place.tag :: place.opens) (sides.saying [])
      (place.tag :: place.opens) (sides.around (quoted content)) :=
  sides.before.append (.skipped (.quoted ends) sides.behind)

theorem passage_escaped (escapes : Escapes content escaped) :
    Passage names Skipped (place.tag :: place.opens) (sides.saying content)
      (place.tag :: place.opens) (sides.around escaped) :=
  sides.before.append ((escapes.passage sides.inner).append sides.behind)

end Sides

theorem filled_eq_iff (first second : List Char) :
    filled? first = filled? second ↔ trim first = trim second := by
  have trimmed : ∀ text, filled? text =
      if trim text = [] then none else some (String.ofList (trim text)) := by
    intro text
    simp only [filled?, trim_eq_nil_iff]
  rw [trimmed, trimmed]
  constructor
  · intro same
    split_ifs at same with blank other
    · rw [blank, other]
    · exact String.ofList_injective (Option.some.inj same)
  · intro same
    rw [same]

theorem shown_field_eq_iff {names skips : List Char → Prop} {name : List Char}
    (place : Place names skips name) (first second : List Char) :
    shown (place.field first) = shown (place.field second) ↔
      place.opens = [] ∨ trim first = trim second := by
  by_cases outermost : place.opens = []
  · simp [Place.field, outermost]
  · simp [Place.field, outermost, shown, String.ofList_inj]

/-- A quoted section adds nothing to a field or a message, where the same characters written one
by one are a part of it. The results are the same only if the text does not depend on them, or if
there is none, the document having a fault or the element being the outermost. -/
theorem results_of_quoted_section {content escaped : List Char}
    (ends : ¬ "]]>".toList <:+: content) (escapes : Escapes content escaped) :
    (∀ {name : List Char} (leaf : Place Any Skipped name) (after : List Char),
      ∃ (values : List (String × String)) (more : Except LeafProblem (List (String × String))),
        ∀ sides : Sides Nothing leaf,
          (leafValues (String.ofList (leaf.document (sides.around (quoted content)) after)) =
            more.map fun later => values ++ shown (leaf.field (sides.saying [])) ++ later) ∧
          (leafValues (String.ofList (leaf.document (sides.around escaped) after)) =
            more.map fun later => values ++ shown (leaf.field (sides.saying content)) ++ later) ∧
          (leafValues (String.ofList (leaf.document (sides.around (quoted content)) after)) =
              leafValues (String.ofList (leaf.document (sides.around escaped) after)) ↔
            more.isOk = false ∨ leaf.opens = [] ∨
              trim (sides.saying []) = trim (sides.saying content))) ∧
    ∀ (message : Place Other Skipped "message".toList) (sides : Sides Other message)
      (rest : List Char),
      serverMessage? (String.ofList (message.document (sides.around (quoted content)) rest)) =
          filled? (sides.saying []) ∧
        serverMessage? (String.ofList (message.document (sides.around escaped) rest)) =
          filled? (sides.saying content) ∧
        (serverMessage? (String.ofList (message.document (sides.around (quoted content)) rest)) =
            serverMessage? (String.ofList (message.document (sides.around escaped) rest)) ↔
          trim (sides.saying []) = trim (sides.saying content)) := by
  constructor
  · intro name leaf after
    obtain ⟨values, more, reads⟩ := leaf_values_at leaf after
    refine ⟨values, more, fun sides => ?_⟩
    have whole := reads (sides.passage_quoted ends)
    have single := reads (sides.passage_escaped escapes)
    refine ⟨whole, single, ?_⟩
    rw [whole, single, ← shown_field_eq_iff]
    cases more with
    | error problem => simp [Except.map, Except.isOk, Except.toBool]
    | ok later => simp [Except.map, Except.isOk, Except.toBool]
  · intro message sides rest
    have whole := server_message_at message (sides.passage_quoted ends) rest
    have single := server_message_at message (sides.passage_escaped escapes) rest
    refine ⟨whole, single, ?_⟩
    rw [whole, single, filled_eq_iff]

/-! A field and a message that are a quoted section and nothing else. -/

/-- Nothing beside the characters. -/
def Sides.bare {names others skips : List Char → Prop} {name : List Char}
    (place : Place others skips name) : Sides names place where
  first := []
  early := []
  inner := place.tag :: place.opens
  before := .nil
  second := []
  late := []
  behind := .nil

def namePlace : Place Any Skipped "name".toList where
  opens := ["data".toList]
  said := []
  before := "<data>".toList
  begins := .startTag trivial (.plain (by decide) : TagName "data".toList "data".toList)
    no_attributes .nil
  tag := "name".toList
  named := .plain (by decide)
  attributes := []
  attributed := no_attributes
  gap := []
  blank := no_gap

def nameSides : Sides Nothing namePlace := .bare namePlace

theorem name_document (middle : List Char) :
    String.ofList (namePlace.document (nameSides.around middle) "</data>".toList) =
      "<data><name>" ++ String.ofList middle ++ "</name></data>" := by
  simp [namePlace, nameSides, Sides.bare, Sides.around, Place.document, String.ext_iff]

def donePlace : Place Other Skipped "message".toList where
  opens := [['r']]
  said := []
  before := "<r>".toList
  begins := .startTag (by decide) root_named no_attributes .nil
  tag := "message".toList
  named := message_named
  attributes := []
  attributed := no_attributes
  gap := []
  blank := no_gap

def doneSides : Sides Other donePlace := .bare donePlace

theorem done_document (middle : List Char) :
    String.ofList (donePlace.document (doneSides.around middle) "</r>".toList) =
      "<r><message>" ++ String.ofList middle ++ "</message></r>" := by
  simp [donePlace, doneSides, Sides.bare, Sides.around, Place.document, String.ext_iff]

theorem ada_unbroken : ¬ "]]>".toList <:+: "Ada".toList := by decide +kernel

theorem ada_escaped : Escapes "Ada".toList "Ada".toList :=
  escapes_of_plain (by decide) (by decide)

theorem quoted_ada : String.ofList (quoted "Ada".toList) = "<![CDATA[Ada]]>" := rfl

/-- The results are not always the same, of either reader. -/
theorem quoted_characters_lost :
    (¬ ∀ {name : List Char} (leaf : Place Any Skipped name) (sides : Sides Nothing leaf)
        (content escaped after : List Char),
      ¬ "]]>".toList <:+: content → Escapes content escaped →
        leafValues (String.ofList (leaf.document (sides.around (quoted content)) after)) =
          leafValues (String.ofList (leaf.document (sides.around escaped) after))) ∧
    ¬ ∀ (message : Place Other Skipped "message".toList) (sides : Sides Other message)
        (content escaped rest : List Char),
      ¬ "]]>".toList <:+: content → Escapes content escaped →
        serverMessage? (String.ofList (message.document (sides.around (quoted content)) rest)) =
          serverMessage? (String.ofList (message.document (sides.around escaped) rest)) := by
  constructor
  · intro same
    have both := same namePlace nameSides "Ada".toList "Ada".toList "</data>".toList
      ada_unbroken ada_escaped
    rw [name_document, name_document, quoted_ada] at both
    revert both
    decide +kernel
  · intro same
    have both := same donePlace doneSides "Ada".toList "Ada".toList "</r>".toList
      ada_unbroken ada_escaped
    rw [done_document, done_document, quoted_ada] at both
    revert both
    decide +kernel

theorem quoted_ada_differs :
    ¬ "]]>".toList <:+: "Ada".toList ∧ Escapes "Ada".toList "Ada".toList ∧
      leafValues "<data><name><![CDATA[Ada]]></name></data>" = .ok [("name", "")] ∧
      leafValues "<data><name><![CDATA[Ada]]></name></data>" ≠
        leafValues "<data><name>Ada</name></data>" ∧
      serverMessage? "<r><message><![CDATA[Ada]]></message></r>" = none ∧
      serverMessage? "<r><message>Ada</message></r>" = some "Ada" := by
  obtain ⟨ofLeaves, ofMessages⟩ := results_of_quoted_section ada_unbroken ada_escaped
  obtain ⟨values, more, reads⟩ := ofLeaves namePlace "</data>".toList
  obtain ⟨whole, _, same⟩ := reads nameSides
  obtain ⟨silent, heard, _⟩ := ofMessages donePlace doneSides "</r>".toList
  rw [name_document, quoted_ada] at whole same
  rw [name_document] at same
  rw [done_document] at silent heard
  have empty : leafValues "<data><name><![CDATA[Ada]]></name></data>" = .ok [("name", "")] := by
    decide +kernel
  refine ⟨ada_unbroken, ada_escaped, empty, ?_, ?_, ?_⟩
  · intro alike
    rcases same.mp alike with faulty | outermost | trimmed
    · cases more with
      | error problem => cases empty.symm.trans whole
      | ok later => cases faulty
    · cases outermost
    · revert trimmed
      decide +kernel
  · exact silent.trans (by decide +kernel)
  · exact heard.trans (by decide +kernel)

end FieldPost.Markup
