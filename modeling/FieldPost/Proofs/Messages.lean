import FieldPost.Markup.Message
import FieldPost.Proofs.Passages
import Mathlib.Data.List.TakeWhile

/-!
The message in a response is what its element says, whatever comes after its end tag. Before it
there may be the beginning of a document: other elements, also ones that are still open, but none
of that name. What the server sends has to be a text for this; how bytes become one is not said
here.
-/

namespace FieldPost

namespace Text

theorem trim_eq_nil_iff (text : List Char) : trim text = [] ↔ text.all isBlank = true := by
  have start : trimStart text = [] ↔ text.all isBlank = true := by
    rw [trimStart, List.dropWhile_eq_nil_iff, List.all_eq_true]
  rw [← start, trim, trimEnd, List.reverse_eq_nil_iff, List.dropWhile_eq_nil_iff]
  constructor
  · intro blank
    rcases begins : trimStart text with _ | ⟨first, rest⟩
    · rfl
    · have notBlank : isBlank first = false := by
        have first := List.head?_dropWhile_not isBlank text
        rw [← trimStart, begins] at first
        exact first
      have within : first ∈ (trimStart text).reverse := by simp [begins]
      rw [blank first within] at notBlank
      cases notBlank
  · intro nothing
    simp [nothing]

end Text

namespace Markup

open FieldPost.Text

/-! ### Listening -/

/-- What is heard of the message in a text under open tags. -/
def heard (inside : Bool) (names : List (List Char)) (text : List Char) : List Char :=
  messageText inside (eventsFrom names (tokens text)).1

/-- The names of elements that are not the message. -/
def Other (name : List Char) : Prop := name ≠ "message".toList

instance (name : List Char) : Decidable (Other name) :=
  inferInstanceAs (Decidable (name ≠ "message".toList))

section

variable (inside : Bool) (names : List (List Char)) {name tag attributes : List Char}

theorem heard_literal {char : Char} (plain : endsText char = false) (rest : List Char) :
    heard inside names (char :: rest) =
      (if inside then [char] else []) ++ heard inside names rest := by
  rcases tokens_of_literal plain rest with ⟨chars, more, short, long⟩ | alone
  · rw [heard, heard, long, short]
    cases inside <;> rfl
  · rw [heard, alone]
    rfl

theorem heard_carried {said written : List Char} (carries : Carries said written)
    (rest : List Char) : heard inside names (written ++ rest) =
      (if inside then said else []) ++ heard inside names rest := by
  rcases carries.literal_or_reference with ⟨char, rfl, rfl, plain⟩ | ⟨content, rfl, plain, resolved⟩
  · exact heard_literal inside names plain rest
  · rw [heard, tokens_of_reference plain]
    simp only [eventsFrom, messageText, resolved]
    rfl

theorem heard_skipped {written : List Char} (skipped : Skipped written) (rest : List Char) :
    heard inside names (written ++ rest) = heard inside names rest := by
  rw [heard, tokens_of_skipped skipped]
  rfl

theorem heard_open_tag (named : TagName name tag) (attributed : Attributes attributes)
    (rest : List Char) : heard inside names ('<' :: (tag ++ attributes ++ '>' :: rest)) =
      heard (inside || name == "message".toList) (tag :: names) rest := by
  rw [heard, tokens_of_next (next_open_tag named attributed rest)]
  simp only [eventsFrom, messageText, tag_name_of_written named attributed, isMessage,
    named.local_name]
  rfl

theorem heard_empty_tag (named : TagName name tag) (attributed : Attributes attributes)
    (rest : List Char) : heard inside names ('<' :: (tag ++ attributes ++ '/' :: '>' :: rest)) =
      heard inside names rest := by
  rw [heard, tokens_of_next (next_empty_tag named attributed rest)]
  rfl

theorem heard_end_tag (named : TagName name tag) {gap : List Char} (blank : IsBlank gap)
    (rest : List Char) : heard inside (tag :: names) ('<' :: '/' :: (tag ++ gap ++ '>' :: rest)) =
      if name = "message".toList then [] else heard inside names rest := by
  rw [heard, tokens_of_next (next_end_tag named blank rest)]
  simp only [eventsFrom, end_name_of_written named blank, if_true, messageText, isMessage,
    named.local_name, beq_iff_eq]
  rfl

end

/-- A mark at the beginning is heard of as little as any character before the message. -/
theorem heard_without_mark (text : List Char) :
    heard false [] (withoutMark text) = heard false [] text := by
  unfold withoutMark
  split
  · exact (heard_literal false [] rfl _).symm
  · rfl

/-- Of a passage without the message's tags all is heard that it says, or nothing, and then the
rest. -/
theorem heard_passage {before after : List (List Char)} {said text : List Char}
    (passage : Passage Other Skipped before said after text) (inside : Bool) (rest : List Char) :
    heard inside before (text ++ rest) =
      (if inside then said else []) ++ heard inside after rest := by
  induction passage with
  | nil => cases inside <;> rfl
  | characters carries _ induction =>
      rw [List.append_assoc, heard_carried inside _ carries, induction]
      cases inside <;> simp
  | skipped skipped _ induction =>
      rw [List.append_assoc, heard_skipped inside _ skipped, induction]
  | emptyTag _ named attributed _ induction =>
      rw [empty_tag_append, heard_empty_tag inside _ named attributed, induction]
  | @startTag _ _ name _ _ _ _ allowed named attributed _ induction =>
      have other : (name == "message".toList) = false := beq_eq_false_iff_ne.mpr allowed
      rw [start_tag_append, heard_open_tag inside _ named attributed, other, Bool.or_false,
        induction]
  | endTag allowed named blank _ induction =>
      rw [end_tag_append, heard_end_tag inside _ named blank, if_neg allowed, induction]

/-- What is left of a text that is trimmed, unless that is nothing. -/
def filled? (said : List Char) : Option String :=
  if said.all isBlank then none else some (String.ofList (trim said))

/-- The first message is what its element says. -/
theorem server_message_at (place : Place Other Skipped "message".toList)
    {said content : List Char} (inside : Passage Other Skipped (place.tag :: place.opens) said
      (place.tag :: place.opens) content) (rest : List Char) :
    serverMessage? (String.ofList (place.document content rest)) = filled? said := by
  have whole : heard false [] (withoutMark (place.document content rest)) = said := by
    rw [heard_without_mark, Place.document, heard_passage place.begins,
      heard_open_tag false _ place.named place.attributed, heard_passage inside,
      heard_end_tag _ _ place.named place.blank]
    simp
  have message : message? (place.document content rest) =
      if trim said = [] then none else some (trim said) := by
    rw [← whole]
    simp only [message?, List.isEmpty_iff]
    rfl
  rw [serverMessage?, String.toList_ofList, message]
  simp only [filled?, trim_eq_nil_iff]
  split <;> rfl

/-- The message in a response is the text of the first element of that name, trimmed, and none if
that is blank. References in it are resolved, and what elements in it say belongs to it. What
comes after its end tag does not matter, whether it is markup or not. -/
theorem server_message_of_response (place : Place Other Skipped "message".toList)
    {said content : List Char}
    (inside : Passage Other Aside (place.tag :: place.opens) said (place.tag :: place.opens) content)
    (rest : List Char) :
    serverMessage? (String.ofList (place.document content rest)) = filled? said :=
  server_message_at place (inside.mono fun _ => .aside) rest

/-! A message behind a declaration, a document type, text and an empty element in an open one,
with a prefix, an attribute, a reference, a comment and an element, before what is no markup. -/

theorem root_named : TagName ['r'] ['r'] := .plain (by decide)

theorem message_named : TagName "message".toList "message".toList := .plain (by decide)

theorem no_gap : IsBlank [] := rfl

theorem no_attributes : Attributes [] := .blank no_gap

/-- A place with open elements around it. -/
def savedPlace : Place Other Skipped "message".toList :=
  have declaration := @Aside.instruction 'x' "ml version='1.0'".toList rfl (by decide +kernel)
  have doctype := @Skipped.doctype " r".toList (paired_of_plain (by decide) (by decide)) (by decide)
  have unknown := @Carries.unknown "form".toList rfl (by decide) (by decide)
  have space : IsBlank [' '] := rfl
  have nature : TagName "nature".toList "nature".toList := .plain (by decide)
  have valued := Attributes.valued (List.cons_ne_nil ' ' []) space nature no_gap no_gap (.inl rfl)
    (by decide : '"' ∉ "a>b".toList) no_attributes
  { opens := [['r']]
    said := "&form;".toList
    before := "<?xml version='1.0'?>".toList ++ ("<!DOCTYPE r>".toList ++
      "<r>&form;<b/>".toList)
    begins := .skipped (.aside declaration) (.skipped doctype
      (.startTag (by decide) root_named no_attributes (.characters unknown
        (.emptyTag (by decide) (.plain (by decide) : TagName ['b'] ['b']) no_attributes .nil))))
    tag := "h:message".toList
    named := @TagName.prefixed "message".toList ['h'] (by decide) (by decide)
    attributes := " nature=\"a>b\"".toList
    attributed := valued
    gap := [' ']
    blank := rfl }

def savedContent : List Char :=
  "Form ".toList ++ ("&quot;".toList ++ ("<!--n-->".toList ++ "<i>saved</i> ".toList))

theorem saved_content : Passage Other Aside (savedPlace.tag :: savedPlace.opens)
    "Form \"saved ".toList (savedPlace.tag :: savedPlace.opens) savedContent := by
  have comment := @Aside.comment ['n'] (by decide +kernel) (by decide)
  have inner : TagName ['i'] ['i'] := .plain (by decide)
  have other : Other ['i'] := by decide
  have form : Escapes "Form ".toList "Form ".toList := escapes_of_plain (by decide) (by decide)
  have saved : Escapes "saved".toList "saved".toList := escapes_of_plain (by decide) (by decide)
  have space : Escapes [' '] [' '] := escapes_of_plain (by decide) (by decide)
  have after : Passage Other Aside (savedPlace.tag :: savedPlace.opens) _ _ _ := space.passage _
  have element := Passage.startTag other inner no_attributes
    ((saved.passage _).append (.endTag other inner no_gap after))
  exact (form.passage _).append (.characters (.character .quotation) (.skipped comment element))

def savedText : String :=
  "<?xml version='1.0'?><!DOCTYPE r><r>&form;<b/><h:message nature=\"a>b\">" ++
    "Form &quot;<!--n--><i>saved</i> </h:message ></s><message>&"

theorem saved_message_read :
    Passage Other Aside (savedPlace.tag :: savedPlace.opens) "Form \"saved ".toList
      (savedPlace.tag :: savedPlace.opens) savedContent ∧
    serverMessage? savedText = some "Form \"saved" := by
  have heard := server_message_of_response savedPlace saved_content "</s><message>&".toList
  have text : savedPlace.document savedContent "</s><message>&".toList = savedText.toList := by
    decide +kernel
  rw [text, String.ofList_toList] at heard
  exact ⟨saved_content, heard.trans (by decide +kernel)⟩

/-! A document type may have brackets that are in no pairs, in comments and in quotes. The reader
does not know these, and looks for the end of the document type behind the message. -/

/-- The characters that have a meaning in a declaration. -/
def declarationMarks : List Char := "<>\"'".toList

/-- What may stand in a document type: declarations, in which the same may stand. -/
inductive Declares : List Char → Prop
  | nil : Declares []
  | plain {char : Char} {text : List Char} (unmarked : char ∉ declarationMarks)
      (more : Declares text) : Declares (char :: text)
  | quoted {quote : Char} {value text : List Char} (quotes : quote = '"' ∨ quote = '\'')
      (inside : quote ∉ value) (more : Declares text) :
      Declares (quote :: (value ++ quote :: text))
  | aside {written text : List Char} (aside : Aside written) (more : Declares text) :
      Declares (written ++ text)
  | declaration {inside text : List Char} (within : Declares inside) (more : Declares text) :
      Declares ("<!".toList ++ inside ++ '>' :: text)

/-- What may stand in a document besides tags and characters. -/
inductive Interlude : List Char → Prop
  | aside {written : List Char} (aside : Aside written) : Interlude written
  | quoted {content : List Char} (ends : ¬ "]]>".toList <:+: content) : Interlude (quoted content)
  | doctype {text : List Char} (declares : Declares text) (named : ¬ IsBlank text) :
      Interlude ("<!DOCTYPE".toList ++ text ++ ">".toList)

theorem declares_of_plain {text : List Char}
    (plain : text.all (fun char => !declarationMarks.contains char) = true) {rest : List Char}
    (more : Declares rest) : Declares (text ++ rest) := by
  induction text with
  | nil => exact more
  | cons char text induction =>
      rw [List.all_cons, Bool.and_eq_true, Bool.not_eq_true'] at plain
      have unmarked : char ∉ declarationMarks := by
        simpa using plain.1
      exact .plain unmarked (induction plain.2)

theorem hidden_doctype : Interlude "<!DOCTYPE r [<!-- < -->]>".toList := by
  have comment := @Aside.comment " < ".toList (by decide +kernel) (by decide)
  have closing : Declares "]".toList := .plain (by decide) .nil
  have declares := @declares_of_plain " r [".toList rfl _ (.aside comment closing)
  exact .doctype declares (by decide +kernel)

/-- A place behind a document type with a bracket in a comment. -/
def hiddenPlace : Place Other Interlude "message".toList where
  opens := [['r']]
  said := []
  before := "<!DOCTYPE r [<!-- < -->]>".toList ++ "<r>".toList
  begins := .skipped hidden_doctype (.startTag (by decide) root_named no_attributes .nil)
  tag := "message".toList
  named := message_named
  attributes := []
  attributed := no_attributes
  gap := []
  blank := no_gap

theorem message_hidden_by_bracket :
    ¬ ∀ (place : Place Other Interlude "message".toList) (said content rest : List Char),
      Passage Other Aside (place.tag :: place.opens) said (place.tag :: place.opens) content →
        serverMessage? (String.ofList (place.document content rest)) = filled? said := by
  intro claimed
  have content : Passage Other Aside (hiddenPlace.tag :: hiddenPlace.opens) ['x']
      (hiddenPlace.tag :: hiddenPlace.opens) ['x'] :=
    (escapes_of_plain (by decide) (by decide)).passage _
  have heard := claimed hiddenPlace ['x'] ['x'] "</r>".toList content
  have text : hiddenPlace.document ['x'] "</r>".toList =
      "<!DOCTYPE r [<!-- < -->]><r><message>x</message></r>".toList := by decide +kernel
  rw [text, String.ofList_toList] at heard
  revert heard
  decide +kernel

end Markup

end FieldPost
