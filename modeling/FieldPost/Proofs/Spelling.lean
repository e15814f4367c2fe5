import FieldPost.Markup.Leaves
import FieldPost.Proofs.Scanning
import Mathlib.Data.List.Forall2

/-!
Documents as trees, the ways to write them, and the tokens of what is written. A name may have a
prefix, a tag may hold attributes, a character may be written as itself or as a reference, and
comments and instructions may stand anywhere. The rules are wider than those of well-formed
documents where the difference does not matter: which characters a name may have, what an
instruction says, and that attributes have different names are left open. Quoted sections and
document types are not among the ways to write.
-/

namespace FieldPost

namespace Text

theorem cut_at_char_of_not_mem {mark : Char} {text : List Char} (missing : mark ∉ text) :
    cutAtChar mark text = none := by
  induction text with
  | nil => rfl
  | cons char text induction =>
      simp only [List.mem_cons, not_or] at missing
      have later := induction missing.2
      simp only [cutAtChar] at later ⊢
      simp only [cutAt, dropMark?, if_neg missing.1, later, Option.map_none]

theorem cut_at_char_append {mark : Char} {before : List Char} (missing : mark ∉ before)
    (after : List Char) : cutAtChar mark (before ++ mark :: after) = some (before, after) := by
  induction before with
  | nil => simp [cutAtChar, cutAt, dropMark?]
  | cons char before induction =>
      simp only [List.mem_cons, not_or] at missing
      have later := induction missing.2
      simp only [cutAtChar] at later ⊢
      simp only [List.cons_append, cutAt, dropMark?, if_neg missing.1, later, Option.map_some]

theorem drop_mark_eq_none {mark text : List Char} (missing : ¬ mark <+: text) :
    dropMark? mark text = none := by
  rcases found : dropMark? mark text with _ | rest
  · rfl
  · exact (missing ⟨rest, (eq_append_of_dropMark? found).symm⟩).elim

/-- A mark that does not begin earlier is the first one. -/
theorem cut_at_first {mark before : List Char} (marks : mark ≠ [])
    (first : ∀ part, part ≠ [] → part <:+ before → ¬ mark <+: part ++ mark) (after : List Char) :
    cutAt mark (before ++ mark ++ after) = some (before, after) := by
  induction before with
  | nil =>
      rcases mark with _ | ⟨wanted, mark⟩
      · exact (marks rfl).elim
      · have here := drop_mark_self (wanted :: mark) after
        rw [List.cons_append] at here
        simp only [List.nil_append, List.cons_append, cutAt, here]
  | cons char before induction =>
      have notHere : ¬ mark <+: char :: (before ++ mark ++ after) := by
        intro here
        apply first (char :: before) (List.cons_ne_nil _ _) (List.suffix_refl _)
        apply List.prefix_of_prefix_length_le here
        · exact ⟨after, by simp⟩
        · simp only [List.length_append, List.length_cons]
          omega
      have later := induction fun part filled within =>
        first part filled (within.trans (List.suffix_cons char before))
      simp only [List.cons_append, cutAt, drop_mark_eq_none notHere, later, Option.map_some]

end Text

namespace Markup

open FieldPost.Text

/-! ### Trees -/

/-- What stands in an element: characters and elements, in the order of the document. -/
inductive Item
  | character (char : Char)
  | element (name : List Char) (content : List Item)

def Item.isElement : Item → Bool
  | .character _ => false
  | .element _ _ => true

def Item.character? : Item → Option Char
  | .character char => some char
  | .element _ _ => none

/-- The character data of an element, that of elements in it aside. -/
def directText (content : List Item) : List Char := content.filterMap Item.character?

mutual

/-- The elements without elements in them, with their names and their trimmed text. -/
def Item.leaves : Item → List Field
  | .character _ => []
  | .element name content =>
      if content.any Item.isElement then leavesOf content
      else [(name, trim (directText content))]

def leavesOf : List Item → List Field
  | [] => []
  | item :: rest => item.leaves ++ leavesOf rest

end

/-! ### Ways to write -/

/-- The characters that have a meaning within a tag or begin other markup. -/
def reserved : List Char := "!\"&'/:<=>?".toList

def isNameChar (char : Char) : Bool := !isSpace char && !reserved.contains char

def IsName (name : List Char) : Prop := name ≠ [] ∧ name.all isNameChar = true

instance (name : List Char) : Decidable (IsName name) :=
  inferInstanceAs (Decidable (name ≠ [] ∧ name.all isNameChar = true))

/-- The name as it stands in a tag, alone or after a prefix. -/
inductive TagName (name : List Char) : List Char → Prop
  | plain (named : IsName name) : TagName name name
  | prefixed {before : List Char} (space : IsName before) (named : IsName name) :
      TagName name (before ++ ':' :: name)

def IsBlank (text : List Char) : Prop := text.all isSpace = true

instance (text : List Char) : Decidable (IsBlank text) :=
  inferInstanceAs (Decidable (text.all isSpace = true))

/-- What stands in a tag after its name: attributes, each after a blank, and perhaps a blank. -/
inductive Attributes : List Char → Prop
  | blank {text : List Char} (blank : IsBlank text) : Attributes text
  | valued {apart tag name before after value rest : List Char} {quote : Char}
      (parted : apart ≠ []) (blank : IsBlank apart) (named : TagName name tag)
      (early : IsBlank before) (late : IsBlank after) (quotes : quote = '"' ∨ quote = '\'')
      (inside : quote ∉ value) (more : Attributes rest) :
      Attributes (apart ++ tag ++ before ++ '=' :: (after ++ quote :: (value ++ quote :: rest)))

/-- The character of a digit, in upper or lower case. -/
def IsDigit (base : Nat) (char : Char) (value : Nat) : Prop :=
  value < base ∧ (char = value.digitChar ∨ char = value.digitChar.toUpper)

instance (base value : Nat) (char : Char) : Decidable (IsDigit base char value) :=
  inferInstanceAs
    (Decidable (value < base ∧ (char = value.digitChar ∨ char = value.digitChar.toUpper)))

/-- The digits of a number, leading zeros allowed. -/
def Digits (base : Nat) (digits : List Char) (number : Nat) : Prop :=
  digits ≠ [] ∧ ∃ values, List.Forall₂ (IsDigit base) digits values ∧
    values.foldl (fun read value => read * base + value) 0 = number

/-- A character as itself, by name, or by number. -/
inductive Writes : Char → List Char → Prop
  | literal {char : Char} (less : char ≠ '<') (ampersand : char ≠ '&') : Writes char [char]
  | less : Writes '<' "&lt;".toList
  | greater : Writes '>' "&gt;".toList
  | ampersand : Writes '&' "&amp;".toList
  | apostrophe : Writes '\'' "&apos;".toList
  | quotation : Writes '"' "&quot;".toList
  | decimal {char : Char} {digits : List Char} (number : Digits 10 digits char.toNat) :
      Writes char ('&' :: '#' :: (digits ++ [';']))
  | hexadecimal {char : Char} {digits : List Char} (number : Digits 16 digits char.toNat) :
      Writes char ('&' :: '#' :: 'x' :: (digits ++ [';']))

/-- A comment, or a processing instruction, as which the declaration of a document is written. -/
inductive Aside : List Char → Prop
  | comment {text : List Char} (plain : ¬ "--".toList <:+: text)
      (ends : text.getLast? ≠ some '-') : Aside ("<!--".toList ++ text ++ "-->".toList)
  | instruction {first : Char} {text : List Char} (named : isNameChar first = true)
      (plain : ¬ "?>".toList <:+: first :: text) :
      Aside ("<?".toList ++ first :: text ++ "?>".toList)

/-- The ways to write content. Between elements there may be blanks that mean nothing. -/
inductive Spelled : (blanks : Bool) → List Item → List Char → Prop
  | nil {blanks : Bool} : Spelled blanks [] []
  | character {blanks : Bool} {char : Char} {written text : List Char} {rest : List Item}
      (writes : Writes char written) (more : Spelled blanks rest text) :
      Spelled blanks (.character char :: rest) (written ++ text)
  | aside {blanks : Bool} {written text : List Char} {content : List Item}
      (aside : Aside written) (more : Spelled blanks content text) :
      Spelled blanks content (written ++ text)
  | blank {char : Char} {text : List Char} {content : List Item} (blank : isSpace char = true)
      (more : Spelled true content text) : Spelled true content (char :: text)
  | emptyTag {blanks : Bool} {name tag attributes text : List Char} {rest : List Item}
      (named : TagName name tag) (attributed : Attributes attributes)
      (more : Spelled blanks rest text) :
      Spelled blanks (.element name [] :: rest)
        ('<' :: (tag ++ attributes ++ '/' :: '>' :: text))
  | element {blanks : Bool} {name tag attributes inner gap text : List Char}
      {content rest : List Item} (named : TagName name tag) (attributed : Attributes attributes)
      (inside : Spelled (content.any Item.isElement) content inner) (blank : IsBlank gap)
      (more : Spelled blanks rest text) :
      Spelled blanks (.element name content :: rest)
        ('<' :: (tag ++ attributes ++ '>' :: (inner ++ '<' :: '/' :: (tag ++ gap ++ '>' :: text))))

/-- The ways to write a document with one root, with or without a byte order mark. -/
def WritesDocument (root : Item) (text : List Char) : Prop :=
  ∃ written, Spelled true [root] written ∧ (text = written ∨ text = '\uFEFF' :: written)

/-! ### Names and attributes -/

section

variable {char mark : Char}

theorem not_space_of_name_char (named : isNameChar char = true) : isSpace char = false := by
  simp only [isNameChar, Bool.and_eq_true, Bool.not_eq_true'] at named
  exact named.1

theorem ne_of_name_char (named : isNameChar char = true) (marks : mark ∈ reserved) :
    char ≠ mark := by
  rintro rfl
  have within : reserved.contains char = true := List.contains_iff_mem.mpr marks
  rw [isNameChar, within, Bool.not_true, Bool.and_false] at named
  cases named

end

theorem colon_not_mem {name : List Char} (named : IsName name) : ':' ∉ name := by
  intro inside
  exact ne_of_name_char (List.all_eq_true.mp named.2 ':' inside) (by decide) rfl

namespace TagName

variable {name tag : List Char}

theorem ne_nil (named : TagName name tag) : tag ≠ [] := by
  cases named with
  | plain named => exact named.1
  | prefixed => simp

theorem name_char_or_colon (named : TagName name tag) {char : Char} (inside : char ∈ tag) :
    isNameChar char = true ∨ char = ':' := by
  cases named with
  | plain named => exact .inl (List.all_eq_true.mp named.2 char inside)
  | prefixed space named =>
      rcases List.mem_append.mp inside with before | after
      · exact .inl (List.all_eq_true.mp space.2 char before)
      · rcases List.mem_cons.mp after with colon | within
        · exact .inr colon
        · exact .inl (List.all_eq_true.mp named.2 char within)

theorem not_space (named : TagName name tag) {char : Char} (inside : char ∈ tag) :
    isSpace char = false := by
  rcases named.name_char_or_colon inside with plain | rfl
  · exact not_space_of_name_char plain
  · rfl

theorem ne_mark (named : TagName name tag) {char : Char} (inside : char ∈ tag) (mark : Char)
    (marks : mark ∈ reserved) (other : ':' ≠ mark) : char ≠ mark := by
  rcases named.name_char_or_colon inside with plain | rfl
  · exact ne_of_name_char plain marks
  · exact other

/-- The part of a tag's name after its colon, if there is one, is the name of the element. -/
theorem local_name (named : TagName name tag) : localName tag = name := by
  cases named with
  | plain named =>
      have single : cutAtChar ':' name = none := cut_at_char_of_not_mem (colon_not_mem named)
      rw [localName, single]
  | prefixed space named =>
      rw [localName, cut_at_char_append (colon_not_mem space)]

end TagName

/-- A tag does not end within this text, nor within quotes that begin in it. -/
def Passes (content : List Char) : Prop :=
  ∀ rest, cutTag none (content ++ rest) =
    (cutTag none rest).map fun sides => (content ++ sides.1, sides.2)

theorem passes_nil : Passes [] := by
  intro rest
  simp

theorem Passes.append {before after : List Char} (first : Passes before) (second : Passes after) :
    Passes (before ++ after) := by
  intro rest
  rw [List.append_assoc, first, second, Option.map_map]
  simp only [Function.comp_def, List.append_assoc]

theorem passes_plain {content : List Char}
    (plain : ∀ char ∈ content, char ≠ '>' ∧ char ≠ '"' ∧ char ≠ '\'') : Passes content := by
  induction content with
  | nil => exact passes_nil
  | cons char content induction =>
      obtain ⟨bracket, double, single⟩ := plain char List.mem_cons_self
      have unquoted : ¬(char = '"' ∨ char = '\'') := by simp [double, single]
      intro rest
      rw [List.cons_append, cutTag, if_neg bracket, if_neg unquoted,
        induction fun other inside => plain other (List.mem_cons_of_mem _ inside), Option.map_map]
      rfl

theorem cut_tag_quoted {quote : Char} {value : List Char} (inside : quote ∉ value)
    (rest : List Char) : cutTag (some quote) (value ++ quote :: rest) =
      (cutTag none rest).map fun sides => (value ++ quote :: sides.1, sides.2) := by
  induction value with
  | nil => simp [cutTag]
  | cons char value induction =>
      simp only [List.mem_cons, not_or] at inside
      rw [List.cons_append, cutTag, if_neg (Ne.symm inside.1), induction inside.2, Option.map_map]
      rfl

theorem passes_quoted {quote : Char} {value : List Char} (quotes : quote = '"' ∨ quote = '\'')
    (inside : quote ∉ value) : Passes (quote :: (value ++ [quote])) := by
  have bracket : quote ≠ '>' := by
    rcases quotes with rfl | rfl <;> decide
  intro rest
  rw [List.cons_append, cutTag, if_neg bracket, if_pos quotes, List.append_assoc]
  simp only [List.singleton_append, cut_tag_quoted inside, Option.map_map]
  simp [Function.comp_def]

theorem passes_blank {text : List Char} (blank : IsBlank text) : Passes text := by
  apply passes_plain
  intro char inside
  have space := List.all_eq_true.mp blank char inside
  refine ⟨?_, ?_, ?_⟩ <;>
    · rintro rfl
      revert space
      decide

theorem TagName.passes {name tag : List Char} (named : TagName name tag) : Passes tag := by
  apply passes_plain
  intro char inside
  exact ⟨named.ne_mark inside '>' (by decide) (by decide),
    named.ne_mark inside '"' (by decide) (by decide),
    named.ne_mark inside '\'' (by decide) (by decide)⟩

theorem last_ne_slash_of_blank {text : List Char} (blank : IsBlank text) :
    text.getLast? ≠ some '/' := by
  intro last
  have space := List.all_eq_true.mp blank '/' (List.mem_of_getLast? last)
  revert space
  decide

namespace Attributes

variable {attributes : List Char}

theorem passes (attributed : Attributes attributes) : Passes attributes := by
  induction attributed with
  | blank blank => exact passes_blank blank
  | valued parted blank named early late quotes inside more induction =>
      rename_i apart tag name before after value rest quote
      have sign : Passes ['='] := passes_plain (by simp)
      have whole := ((((passes_blank blank).append named.passes).append (passes_blank early)).append
        (sign.append ((passes_blank late).append
          ((passes_quoted quotes inside).append induction))))
      simpa using whole

theorem last_ne_slash (attributed : Attributes attributes) : attributes.getLast? ≠ some '/' := by
  induction attributed with
  | blank blank => exact last_ne_slash_of_blank blank
  | valued parted blank named early late quotes inside more induction =>
      rename_i apart tag name before after value rest quote
      have quoteLast : quote ≠ '/' := by
        rcases quotes with rfl | rfl <;> decide
      rcases atEnd : rest.getLast? with _ | last
      · have ended : rest = [] := List.getLast?_eq_none_iff.mp atEnd
        subst ended
        simpa [List.getLast?_append, List.getLast?_cons] using quoteLast
      · simpa [List.getLast?_append, List.getLast?_cons, atEnd] using induction

theorem nil_or_space_first (attributed : Attributes attributes) :
    attributes = [] ∨ ∃ first rest, attributes = first :: rest ∧ isSpace first = true := by
  cases attributed with
  | blank blank =>
      rcases attributes with _ | ⟨first, rest⟩
      · exact .inl rfl
      · exact .inr ⟨first, rest, rfl, List.all_eq_true.mp blank first List.mem_cons_self⟩
  | valued parted blank named early late quotes inside more =>
      rename_i apart tag name before after value rest quote
      rcases apart with _ | ⟨first, apart⟩
      · exact (parted rfl).elim
      · exact .inr ⟨first, _, rfl, List.all_eq_true.mp blank first List.mem_cons_self⟩

end Attributes

/-! ### Tags -/

section

variable {name tag attributes : List Char}

theorem tag_name_of_written (named : TagName name tag) (attributed : Attributes attributes) :
    tagName (tag ++ attributes) = tag := by
  have plain : ∀ char ∈ tag, (!isSpace char) = true := by
    intro char inside
    rw [named.not_space inside]
    rfl
  have stops : attributes.takeWhile (fun char => !isSpace char) = [] := by
    rcases attributed.nil_or_space_first with rfl | ⟨first, rest, rfl, space⟩
    · rfl
    · rw [List.takeWhile_cons, space]
      rfl
  rw [tagName, List.takeWhile_append_of_pos plain, stops, List.append_nil]

theorem end_name_of_written (named : TagName name tag) {gap : List Char} (blank : IsBlank gap) :
    endName (tag ++ gap) = tag := by
  have last : tag.reverse.dropWhile isSpace = tag.reverse := by
    rcases backwards : tag.reverse with _ | ⟨char, rest⟩
    · rfl
    · have inside : char ∈ tag := by
        rw [← List.mem_reverse, backwards]
        exact List.mem_cons_self
      rw [List.dropWhile_cons, named.not_space inside]
      rfl
  have notAll : ¬(tag ++ gap).all isSpace = true := by
    intro all
    obtain ⟨first, inside⟩ := List.exists_mem_of_ne_nil tag named.ne_nil
    have space := List.all_eq_true.mp all first (List.mem_append_left gap inside)
    rw [named.not_space inside] at space
    cases space
  have spaces : ∀ char ∈ gap.reverse, isSpace char = true := by
    intro char inside
    exact List.all_eq_true.mp blank char (List.mem_reverse.mp inside)
  rw [endName, if_neg notAll, List.reverse_append, List.dropWhile_append_of_pos spaces, last,
    List.reverse_reverse]

theorem cut_tag_of_passes {content : List Char} (passes : Passes content) (rest : List Char) :
    cutTag none (content ++ '>' :: rest) = some (content, rest) := by
  rw [passes]
  simp [cutTag]

/-- What begins with a name is a tag, and neither an end tag nor other markup. -/
theorem next_markup_of_name (named : TagName name tag) (rest : List Char) :
    nextMarkup (tag ++ rest) = nextTag (tag ++ rest) := by
  rcases tag with _ | ⟨first, tag⟩
  · exact (named.ne_nil rfl).elim
  have notDeclaration := named.ne_mark List.mem_cons_self '!' (by decide) (by decide)
  have notEnd := named.ne_mark List.mem_cons_self '/' (by decide) (by decide)
  have notInstruction := named.ne_mark List.mem_cons_self '?' (by decide) (by decide)
  rw [List.cons_append]
  unfold nextMarkup
  split <;> simp_all

theorem next_open_tag (named : TagName name tag) (attributed : Attributes attributes)
    (rest : List Char) : next '<' (tag ++ attributes ++ '>' :: rest) =
      (.openTag (tag ++ attributes), rest) := by
  have noSlash : (tag ++ attributes).getLast? ≠ some '/' := by
    rw [List.getLast?_append]
    rcases atEnd : attributes.getLast? with _ | last
    · intro inTag
      exact named.ne_mark (List.mem_of_getLast? inTag) '/' (by decide) (by decide) rfl
    · rw [Option.some_or, ← atEnd]
      exact attributed.last_ne_slash
  have whole := cut_tag_of_passes (named.passes.append attributed.passes) rest
  rw [next, if_pos rfl, List.append_assoc, next_markup_of_name named, ← List.append_assoc, nextTag]
  simp only [whole, if_neg noSlash]

theorem next_empty_tag (named : TagName name tag) (attributed : Attributes attributes)
    (rest : List Char) : next '<' (tag ++ attributes ++ '/' :: '>' :: rest) =
      (.emptyTag (tag ++ attributes), rest) := by
  have slash : Passes ['/'] := passes_plain (by simp)
  have whole := cut_tag_of_passes ((named.passes.append attributed.passes).append slash) rest
  have parts : tag ++ attributes ++ '/' :: '>' :: rest =
      tag ++ attributes ++ ['/'] ++ '>' :: rest := by simp
  rw [next, if_pos rfl, List.append_assoc, next_markup_of_name named, ← List.append_assoc, parts,
    nextTag, whole]
  simp

theorem next_end_tag (named : TagName name tag) {gap : List Char} (blank : IsBlank gap)
    (rest : List Char) : next '<' ('/' :: (tag ++ gap ++ '>' :: rest)) =
      (.closeTag (tag ++ gap), rest) := by
  have whole := cut_tag_of_passes (named.passes.append (passes_blank blank)) rest
  simp only [next, if_true, nextMarkup, nextEndTag, whole]

end

/-! ### Asides and references -/

theorem next_comment {text : List Char} (plain : ¬ "--".toList <:+: text)
    (ends : text.getLast? ≠ some '-') (rest : List Char) :
    next '<' ("!--".toList ++ text ++ "-->".toList ++ rest) = (.skipped, rest) := by
  have whole : cutAt "-->".toList (text ++ "-->".toList ++ rest) = some (text, rest) := by
    apply cut_at_first
    · exact List.cons_ne_nil _ _
    rintro part filled ⟨before, rfl⟩ begins
    rcases part with _ | ⟨first, _ | ⟨second, part⟩⟩
    · exact filled rfl
    · have dash : '-' = first := (List.cons_prefix_cons.mp begins).1
      apply ends
      rw [← dash, List.getLast?_append]
      rfl
    · have parts := List.cons_prefix_cons.mp begins
      have one : '-' = first := parts.1
      have two : '-' = second := (List.cons_prefix_cons.mp parts.2).1
      apply plain
      rw [← one, ← two]
      exact ⟨before, part, by simp⟩
  have marked := drop_mark_self "--".toList (text ++ "-->".toList ++ rest)
  have parts : "!--".toList ++ text ++ "-->".toList ++ rest =
      '!' :: '-' :: '-' :: (text ++ "-->".toList ++ rest) := by
    rw [List.append_assoc, List.append_assoc, ← List.append_assoc text]
    rfl
  rw [parts]
  change nextComment ("--".toList ++ (text ++ "-->".toList ++ rest)) = _
  simp only [nextComment, marked, whole]

theorem next_instruction {first : Char} {text : List Char} (named : isNameChar first = true)
    (plain : ¬ "?>".toList <:+: first :: text) (rest : List Char) :
    next '<' ('?' :: first :: text ++ "?>".toList ++ rest) = (.skipped, rest) := by
  have whole : cutAt "?>".toList ('?' :: first :: text ++ "?>".toList ++ rest) =
      some ('?' :: first :: text, rest) := by
    apply cut_at_first
    · exact List.cons_ne_nil _ _
    intro part filled within begins
    rcases List.suffix_cons_iff.mp within with rfl | ⟨before, parts⟩
    · obtain ⟨_, later⟩ := List.cons_prefix_cons.mp begins
      have bracket := (List.cons_prefix_cons.mp later).1
      exact ne_of_name_char named (by decide) bracket.symm
    rcases part with _ | ⟨one, _ | ⟨two, part⟩⟩
    · exact filled rfl
    · obtain ⟨_, later⟩ := List.cons_prefix_cons.mp begins
      have impossible : '>' = '?' := (List.cons_prefix_cons.mp later).1
      revert impossible
      decide
    · have marks := List.cons_prefix_cons.mp begins
      have question : '?' = one := marks.1
      have bracket : '>' = two := (List.cons_prefix_cons.mp marks.2).1
      apply plain
      rw [← parts, ← question, ← bracket]
      exact ⟨before, part, by simp⟩
  change nextInstruction ('?' :: first :: text ++ "?>".toList ++ rest) = _
  simp only [nextInstruction, whole]

theorem next_reference {content : List Char}
    (plain : content.all (fun char => !endsReference char) = true) (rest : List Char) :
    next '&' (content ++ ';' :: rest) = (.reference content, rest) := by
  have inside := List.all_eq_true.mp plain
  change nextReference (content ++ ';' :: rest) = _
  rw [nextReference, List.dropWhile_append_of_pos inside, List.takeWhile_append_of_pos inside]
  simp [endsReference]

end Markup

end FieldPost
