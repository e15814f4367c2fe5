import FieldPost.Proofs.Spelling

/-!
The fields of a filled-in form are those of the tree that its document writes, whichever way it
is written. The reader keeps the open elements on a stack; that nothing is lost in it is said once
for the innermost element, with any elements around it and any text after it.
-/

namespace FieldPost

namespace Markup

open FieldPost.Text

/-! ### References -/

section

variable {base value : Nat} {char : Char}

theorem digit_of_written (small : base ≤ 16) (digit : IsDigit base char value) :
    Numeral.digit? base char = some value := by
  have all : ∀ value < 16, Numeral.digit? 16 value.digitChar = some value ∧
      Numeral.digit? 16 value.digitChar.toUpper = some value := by decide
  obtain ⟨bound, written⟩ := digit
  obtain ⟨lower, upper⟩ := all value (Nat.lt_of_lt_of_le bound small)
  have read : Numeral.digit? 16 char = some value := by
    rcases written with rfl | rfl
    · exact lower
    · exact upper
  simp only [Numeral.digit?, Option.filter_eq_some_iff, decide_eq_true_eq] at read ⊢
  exact ⟨read.1, bound⟩

theorem ne_of_no_digit (small : base ≤ 16) (digit : IsDigit base char value) (mark : Char)
    (stray : Numeral.digit? base mark = none) : char ≠ mark := by
  rintro rfl
  rw [digit_of_written small digit] at stray
  cases stray

end

theorem le_foldl_digits {base : Nat} (positive : 0 < base) (values : List Nat) (value : Nat) :
    value ≤ values.foldl (fun read value => read * base + value) value := by
  induction values generalizing value with
  | nil => exact Nat.le_refl _
  | cons digit values induction =>
      calc
        value ≤ value * base := Nat.le_mul_of_pos_right value positive
        _ ≤ value * base + digit := Nat.le_add_right _ _
        _ ≤ _ := induction _

theorem read_digits_of_written {base limit value : Nat} {digits : List Char} {values : List Nat}
    (positive : 0 < base) (small : base ≤ 16)
    (written : List.Forall₂ (IsDigit base) digits values)
    (fits : values.foldl (fun read value => read * base + value) value ≤ limit) :
    Numeral.readDigits base limit value digits =
      .ok (values.foldl (fun read value => read * base + value) value) := by
  induction written generalizing value with
  | nil => rfl
  | @cons char digit digits values first _ induction =>
      have within : ¬limit < value * base + digit :=
        Nat.not_lt.mpr (Nat.le_trans (le_foldl_digits positive values _) fits)
      simp only [Numeral.readDigits, digit_of_written small first, if_neg within]
      exact induction fits

theorem char_fits (char : Char) : char.toNat ≤ numberLimit := by
  have valid : char.toNat.isValidChar := char.valid
  simp only [Nat.isValidChar, numberLimit] at valid ⊢
  omega

theorem read_of_written {base : Nat} {char : Char} {digits : List Char} (positive : 0 < base)
    (small : base ≤ 16) (noPlus : Numeral.digit? base '+' = none)
    (number : Digits base digits char.toNat) :
    Numeral.read base numberLimit digits = .ok char.toNat := by
  obtain ⟨filled, values, written, total⟩ := number
  have fits := char_fits char
  rw [← total] at fits
  have digitsRead := read_digits_of_written positive small written fits
  rw [total] at digitsRead
  cases written with
  | nil => exact (filled rfl).elim
  | cons first _ =>
      have unsigned := ne_of_no_digit small first '+' noPlus
      unfold Numeral.read
      split <;> simp_all

theorem resolve_number {char : Char} {number : List Char}
    (read : readNumber number = .ok char.toNat) : resolve ('#' :: number) = .ok [char] := by
  have valid : char.toNat.isValidChar := char.valid
  simp only [resolve, read, if_pos valid, Char.ofNat_toNat]

/-- No digit ends a reference. -/
theorem reference_goes_on {base number : Nat} {digits : List Char} (small : base ≤ 16)
    (written : Digits base digits number) :
    digits.all (fun char => !endsReference char) = true := by
  obtain ⟨-, values, all, -⟩ := written
  induction all with
  | nil => rfl
  | @cons char value digits values first _ induction =>
      have goesOn : endsReference char = false := by
        have semicolon := ne_of_no_digit small first ';' rfl
        have ampersand := ne_of_no_digit small first '&' rfl
        have less := ne_of_no_digit small first '<' rfl
        simp [endsReference, semicolon, ampersand, less]
      simpa [goesOn] using induction

/-- A character is written as itself or as a reference that is resolved to it. -/
theorem written_char {char : Char} {written : List Char} (writes : Writes char written) :
    (written = [char] ∧ endsText char = false) ∨
      ∃ content, written = '&' :: (content ++ [';']) ∧
        content.all (fun char => !endsReference char) = true ∧ resolve content = .ok [char] := by
  cases writes with
  | literal less ampersand => exact .inl ⟨rfl, by simp [endsText, less, ampersand]⟩
  | less => exact .inr ⟨"lt".toList, rfl, rfl, rfl⟩
  | greater => exact .inr ⟨"gt".toList, rfl, rfl, rfl⟩
  | ampersand => exact .inr ⟨"amp".toList, rfl, rfl, rfl⟩
  | apostrophe => exact .inr ⟨"apos".toList, rfl, rfl, rfl⟩
  | quotation => exact .inr ⟨"quot".toList, rfl, rfl, rfl⟩
  | decimal number =>
      rename_i digits
      refine .inr ⟨'#' :: digits, rfl, ?_, resolve_number ?_⟩
      · simpa [endsReference] using reference_goes_on (by decide) number
      · have read := read_of_written (by decide) (by decide) rfl number
        obtain ⟨filled, values, all, _⟩ := number
        cases all with
        | nil => exact (filled rfl).elim
        | cons first _ =>
            have lower := ne_of_no_digit (by decide) first 'x' rfl
            have upper := ne_of_no_digit (by decide) first 'X' rfl
            unfold readNumber
            split <;> simp_all
  | hexadecimal number =>
      rename_i digits
      refine .inr ⟨'#' :: 'x' :: digits, rfl, ?_, resolve_number ?_⟩
      · simpa [endsReference] using reference_goes_on (by decide) number
      · exact read_of_written (by decide) (by decide) rfl number

/-! ### Tokens of a text -/

/-- The tokens of a text that has no mark before it. -/
def tokens (text : List Char) : List Token := scanFrom text.length text

theorem next_length_le (first : Char) (rest : List Char) :
    (next first rest).2.length ≤ rest.length := by
  rcases next_settled first rest with (⟨fault, failed⟩ | ⟨token, left, _, within, reads⟩) |
    ⟨read, _⟩
  · rw [failed]
    exact Nat.zero_le _
  · have read := reads []
    rw [List.append_nil, List.append_nil] at read
    rw [read]
    exact within.length_le
  · rw [read]
    exact Nat.zero_le _

theorem scan_from_enough {fuel more : Nat} {text : List Char} (enough : text.length ≤ fuel)
    (enoughToo : text.length ≤ more) : scanFrom fuel text = scanFrom more text := by
  induction fuel generalizing more text with
  | zero =>
      have ended : text = [] := List.length_eq_zero_iff.mp (Nat.le_zero.mp enough)
      rw [ended, scan_from_nil, scan_from_nil]
  | succ fuel induction =>
      rcases text with _ | ⟨first, rest⟩
      · rw [scan_from_nil, scan_from_nil]
      rcases more with _ | more
      · cases enoughToo
      have shorter := next_length_le first rest
      rw [List.length_cons] at enough enoughToo
      simp only [scanFrom]
      apply congrArg
      apply induction <;> omega

theorem tokens_cons (first : Char) (rest : List Char) :
    tokens (first :: rest) = (next first rest).1 :: tokens (next first rest).2 := by
  unfold tokens
  rw [List.length_cons, scanFrom]
  apply congrArg
  exact scan_from_enough (next_length_le first rest) (Nat.le_refl _)

theorem tokens_of_next {first : Char} {rest left : List Char} {token : Token}
    (reads : next first rest = (token, left)) : tokens (first :: rest) = token :: tokens left := by
  rw [tokens_cons, reads]

theorem tokens_of_aside {written : List Char} (aside : Aside written) (rest : List Char) :
    tokens (written ++ rest) = .skipped :: tokens rest := by
  cases aside with
  | comment plain ends => exact tokens_of_next (next_comment plain ends rest)
  | instruction named plain => exact tokens_of_next (next_instruction named plain rest)

/-- A character that ends no text belongs to the text after it, or is a text of its own. -/
theorem tokens_of_literal {char : Char} (plain : endsText char = false) (rest : List Char) :
    (∃ chars more, tokens rest = .text chars :: more ∧
      tokens (char :: rest) = .text (char :: chars) :: more) ∨
    tokens (char :: rest) = .text [char] :: tokens rest := by
  have text : ∀ char rest, endsText char = false → tokens (char :: rest) =
      .text (char :: rest.takeWhile fun char => !endsText char) ::
        tokens (rest.dropWhile fun char => !endsText char) := by
    intro char rest plain
    simp only [endsText, Bool.or_eq_false_iff, beq_eq_false_iff_ne] at plain
    apply tokens_of_next
    simp only [next, if_neg plain.1, if_neg plain.2]
  rcases rest with _ | ⟨second, rest⟩
  · exact .inr (text char [] plain)
  rcases ends : endsText second with _ | _
  · refine .inl ⟨_, _, text second rest ends, ?_⟩
    rw [text char (second :: rest) plain, List.takeWhile_cons, List.dropWhile_cons, ends]
    rfl
  · right
    rw [text char (second :: rest) plain, List.takeWhile_cons, List.dropWhile_cons, ends]
    rfl

theorem tokens_of_reference {content : List Char}
    (plain : content.all (fun char => !endsReference char) = true) (rest : List Char) :
    tokens ('&' :: (content ++ [';']) ++ rest) = .reference content :: tokens rest := by
  have parts : '&' :: (content ++ [';']) ++ rest = '&' :: (content ++ ';' :: rest) := by simp
  rw [parts]
  exact tokens_of_next (next_reference plain rest)

/-! ### Reading on -/

/-- The fields after all tokens, with the open tags and what is known so far. -/
def readTokens (names : List (List Char)) (state : LeafState) (tokens : List Token) :
    Except LeafProblem (List Field) := do
  let read ← state.run (eventsFrom names tokens).1
  match (eventsFrom names tokens).2 with
  | some fault => .error (.markup fault)
  | none => .ok read.fields

def readOn (names : List (List Char)) (state : LeafState) (text : List Char) :
    Except LeafProblem (List Field) :=
  readTokens names state (tokens text)

theorem leaf_fields_eq (text : List Char) : leafFields text = readOn [] {} (withoutMark text) := rfl

theorem LeafState.add_text_append (state : LeafState) (before after : List Char) :
    (state.addText before).addText after = state.addText (before ++ after) := by
  rcases state with ⟨_ | ⟨current, outer⟩, fields⟩
  · rfl
  · simp [LeafState.addText]

section

variable (names : List (List Char)) (state : LeafState) {name tag attributes : List Char}

theorem read_aside {written : List Char} (aside : Aside written) (rest : List Char) :
    readOn names state (written ++ rest) = readOn names state rest := by
  rw [readOn, tokens_of_aside aside]
  rfl

theorem read_literal {char : Char} (plain : endsText char = false) (rest : List Char) :
    readOn names state (char :: rest) = readOn names (state.addText [char]) rest := by
  rcases tokens_of_literal plain rest with ⟨chars, more, short, long⟩ | alone
  · rw [readOn, readOn, long, short]
    change readTokens names (state.addText _) more =
      readTokens names ((state.addText [char]).addText _) more
    rw [LeafState.add_text_append]
    rfl
  · rw [readOn, alone]
    rfl

theorem read_reference {content said : List Char}
    (plain : content.all (fun char => !endsReference char) = true)
    (resolved : resolve content = .ok said) (rest : List Char) :
    readOn names state ('&' :: (content ++ [';']) ++ rest) =
      readOn names (state.addText said) rest := by
  rw [readOn, tokens_of_reference plain]
  rcases state with ⟨_ | ⟨current, outer⟩, fields⟩
  · rfl
  · simp [readOn, readTokens, eventsFrom, LeafState.run, LeafState.step, LeafState.addText,
      resolved, bind, Except.bind]

theorem read_open_tag (named : TagName name tag) (attributed : Attributes attributes)
    (rest : List Char) : readOn names state ('<' :: (tag ++ attributes ++ '>' :: rest)) =
      readOn (tag :: names)
        { state.markParent with
          openElements := { name } :: state.markParent.openElements } rest := by
  rw [readOn, tokens_of_next (next_open_tag named attributed rest)]
  change readTokens (tagName (tag ++ attributes) :: names)
    { state.markParent with
      openElements :=
        { name := localName (tagName (tag ++ attributes)) } :: state.markParent.openElements }
    (tokens rest) = _
  rw [tag_name_of_written named attributed, named.local_name]
  rfl

theorem read_empty_tag (named : TagName name tag) (attributed : Attributes attributes)
    (current : Open) (outer : List Open) (fields : List Field) (rest : List Char) :
    readOn names ⟨current :: outer, fields⟩ ('<' :: (tag ++ attributes ++ '/' :: '>' :: rest)) =
      readOn names ⟨{ current with hasChildren := true } :: outer, fields ++ [(name, [])]⟩
        rest := by
  rw [readOn, tokens_of_next (next_empty_tag named attributed rest)]
  change readTokens names ⟨{ current with hasChildren := true } :: outer,
    fields ++ [(localName (tagName (tag ++ attributes)), [])]⟩ (tokens rest) = _
  rw [tag_name_of_written named attributed, named.local_name]
  rfl

theorem read_empty_root (named : TagName name tag) (attributed : Attributes attributes)
    (fields : List Field) (rest : List Char) :
    readOn names ⟨[], fields⟩ ('<' :: (tag ++ attributes ++ '/' :: '>' :: rest)) =
      readOn names ⟨[], fields⟩ rest := by
  rw [readOn, tokens_of_next (next_empty_tag named attributed rest)]
  rfl

theorem read_end_tag (named : TagName name tag) {gap : List Char} (blank : IsBlank gap)
    (current : Open) (outer : List Open) (fields : List Field) (rest : List Char) :
    readOn (tag :: names) ⟨current :: outer, fields⟩ ('<' :: '/' :: (tag ++ gap ++ '>' :: rest)) =
      readOn names ⟨outer, fields ++
        if current.hasChildren || outer.isEmpty then [] else [(current.name, trim current.text)]⟩
        rest := by
  have read := tokens_of_next (next_end_tag named blank rest)
  have closes : eventsFrom (tag :: names) (.closeTag (tag ++ gap) :: tokens rest) =
      (.finish tag :: (eventsFrom names (tokens rest)).1, (eventsFrom names (tokens rest)).2) := by
    simp only [eventsFrom, end_name_of_written named blank, if_true]
  rw [readOn, read, readTokens, closes]
  rcases ends : current.hasChildren || outer.isEmpty with _ | _ <;>
    simp [readOn, readTokens, LeafState.run, LeafState.step, LeafState.addField, ends, bind,
      Except.bind]

theorem read_char {char : Char} {written : List Char} (writes : Writes char written)
    (current : Open) (outer : List Open) (fields : List Field) (rest : List Char) :
    readOn names ⟨current :: outer, fields⟩ (written ++ rest) =
      readOn names ⟨{ current with text := current.text ++ [char] } :: outer, fields⟩ rest := by
  rcases written_char writes with ⟨rfl, plain⟩ | ⟨content, rfl, plain, resolved⟩
  · exact read_literal names _ plain rest
  · exact read_reference names _ plain resolved rest

end

/-! ### Content of an element -/

/-- What is known of an open element before and after content in it. Blanks between the elements
add to a text that is not asked for. -/
structure Gathers (blanks : Bool) (content : List Item) (before after : Open) : Prop where
  name : after.name = before.name
  hasChildren : after.hasChildren = (before.hasChildren || content.any Item.isElement)
  text : blanks = false → after.text = before.text ++ directText content

theorem leaves_of_characters {content : List Item} (plain : content.any Item.isElement = false) :
    leavesOf content = [] := by
  induction content with
  | nil => rfl
  | cons item content induction =>
      cases item with
      | character char => exact induction plain
      | element name content => cases plain

/-- An element is a field of its own unless elements in it have been fields. -/
theorem leaves_of_gathered {name : List Char} {content : List Item} {closing : Open}
    (gathered : Gathers (content.any Item.isElement) content { name } closing) :
    leavesOf content ++ (if closing.hasChildren then [] else [(closing.name, trim closing.text)]) =
      (Item.element name content).leaves := by
  rw [gathered.hasChildren, gathered.name]
  rcases plain : content.any Item.isElement with _ | _
  · rw [gathered.text plain, leaves_of_characters plain]
    simp [Item.leaves, plain]
  · simp [Item.leaves, plain]

theorem not_ends_text_of_space {char : Char} (blank : isSpace char = true) :
    endsText char = false := by
  simp only [isSpace, Bool.or_eq_true, beq_iff_eq] at blank
  rcases blank with ((rfl | rfl) | rfl) | rfl <;> rfl

theorem read_content {blanks : Bool} {content : List Item} {text : List Char}
    (spelled : Spelled blanks content text) (names : List (List Char)) (current : Open)
    (outer : List Open) (fields : List Field) (rest : List Char) :
    ∃ after, Gathers blanks content current after ∧
      readOn names ⟨current :: outer, fields⟩ (text ++ rest) =
        readOn names ⟨after :: outer, fields ++ leavesOf content⟩ rest := by
  induction spelled generalizing names current outer fields rest with
  | nil =>
      refine ⟨current, ⟨rfl, by simp, by simp [directText]⟩, ?_⟩
      simp [leavesOf]
  | @character blanks char written text content writes more induction =>
      have read := read_char names writes current outer fields (text ++ rest)
      obtain ⟨after, gathers, later⟩ :=
        induction names { current with text := current.text ++ [char] } outer fields rest
      refine ⟨after, ⟨gathers.name, gathers.hasChildren, ?_⟩, ?_⟩
      · intro exact
        rw [gathers.text exact, List.append_assoc]
        rfl
      · rw [List.append_assoc, read, later]
        rfl
  | aside aside more induction =>
      obtain ⟨after, gathers, later⟩ := induction names current outer fields rest
      exact ⟨after, gathers, by rw [List.append_assoc, read_aside names _ aside, later]⟩
  | @blank char text content blank more induction =>
      obtain ⟨after, gathers, later⟩ :=
        induction names { current with text := current.text ++ [char] } outer fields rest
      refine ⟨after, ⟨gathers.name, gathers.hasChildren, nofun⟩, ?_⟩
      rw [List.cons_append, read_literal names _ (not_ends_text_of_space blank)]
      exact later
  | @emptyTag blanks name tag attributes text content named attributed more induction =>
      have read := read_empty_tag names named attributed current outer fields (text ++ rest)
      obtain ⟨after, gathers, later⟩ :=
        induction names { current with hasChildren := true } outer (fields ++ [(name, [])]) rest
      refine ⟨after, ⟨gathers.name, ?_, gathers.text⟩, ?_⟩
      · rw [gathers.hasChildren]
        simp [Item.isElement]
      · have parts : '<' :: (tag ++ attributes ++ '/' :: '>' :: text) ++ rest =
            '<' :: (tag ++ attributes ++ '/' :: '>' :: (text ++ rest)) := by simp
        rw [parts, read, later, List.append_assoc]
        rfl
  | @element blanks name tag attributes inner gap text content items named attributed inside blank
      more inductionInside inductionMore =>
      have parts : '<' :: (tag ++ attributes ++ '>' ::
            (inner ++ '<' :: '/' :: (tag ++ gap ++ '>' :: text))) ++ rest =
          '<' :: (tag ++ attributes ++ '>' ::
            (inner ++ '<' :: '/' :: (tag ++ gap ++ '>' :: (text ++ rest)))) := by simp
      have opened := read_open_tag names ⟨current :: outer, fields⟩ named attributed
        (inner ++ '<' :: '/' :: (tag ++ gap ++ '>' :: (text ++ rest)))
      obtain ⟨closing, gathered, within⟩ := inductionInside (tag :: names) { name }
        ({ current with hasChildren := true } :: outer) fields
        ('<' :: '/' :: (tag ++ gap ++ '>' :: (text ++ rest)))
      have closed := read_end_tag names named blank closing
        ({ current with hasChildren := true } :: outer) (fields ++ leavesOf content) (text ++ rest)
      obtain ⟨after, gathers, later⟩ := inductionMore names { current with hasChildren := true }
        outer (fields ++ (Item.element name content).leaves) rest
      refine ⟨after, ⟨gathers.name, ?_, gathers.text⟩, ?_⟩
      · rw [gathers.hasChildren]
        simp [Item.isElement]
      · rw [List.isEmpty_cons, Bool.or_false, List.append_assoc fields,
          leaves_of_gathered gathered, later, List.append_assoc fields] at closed
        rw [parts, opened]
        exact within.trans closed

/-! ### Documents -/

theorem read_after_root {blanks : Bool} {content : List Item} {text : List Char}
    (spelled : Spelled blanks content text) (nothing : content = []) (fields : List Field) :
    readOn [] ⟨[], fields⟩ text = .ok fields := by
  induction spelled with
  | nil => rfl
  | character => cases nothing
  | aside aside more induction => exact (read_aside [] _ aside _).trans (induction nothing)
  | blank blank more induction =>
      exact (read_literal [] _ (not_ends_text_of_space blank) _).trans (induction nothing)
  | emptyTag => cases nothing
  | element => cases nothing

theorem read_root {blanks : Bool} {items content : List Item} {name text : List Char}
    (spelled : Spelled blanks items text) (single : items = [.element name content]) :
    readOn [] {} text = .ok (leavesOf content) := by
  induction spelled with
  | nil => cases single
  | character => cases single
  | aside aside more induction => exact (read_aside [] _ aside _).trans (induction single)
  | blank blank more induction =>
      exact (read_literal [] _ (not_ends_text_of_space blank) _).trans (induction single)
  | emptyTag named attributed more =>
      cases single
      exact (read_empty_root [] named attributed [] _).trans (read_after_root more rfl [])
  | @element blanks _ tag attributes inner gap text _ _ named attributed inside blank more =>
      cases single
      obtain ⟨closing, _, within⟩ := read_content inside [tag] { name } [] []
        ('<' :: '/' :: (tag ++ gap ++ '>' :: text))
      have closed := read_end_tag [] named blank closing [] (leavesOf content) text
      rw [List.isEmpty_nil, Bool.or_true, if_pos rfl, List.append_nil] at closed
      calc
        _ = readOn [tag] ⟨[{ name }], []⟩ (inner ++ '<' :: '/' :: (tag ++ gap ++ '>' :: text)) :=
          read_open_tag [] {} named attributed _
        _ = readOn [] ⟨[], leavesOf content⟩ text := within.trans closed
        _ = .ok (leavesOf content) := read_after_root more rfl _

/-- A document begins with a bracket or a blank, so no mark is taken for a part of it. -/
theorem without_mark_of_spelled {blanks : Bool} {content : List Item} {name text : List Char}
    (spelled : Spelled blanks [.element name content] text) : withoutMark text = text := by
  have begins : ∃ first rest, text = first :: rest ∧ first ≠ '\uFEFF' := by
    cases spelled with
    | aside aside more =>
        cases aside with
        | comment => exact ⟨'<', _, rfl, by decide⟩
        | instruction => exact ⟨'<', _, rfl, by decide⟩
    | @blank char text _ blank more =>
        refine ⟨char, text, rfl, ?_⟩
        rintro rfl
        cases blank
    | emptyTag => exact ⟨'<', _, rfl, by decide⟩
    | element => exact ⟨'<', _, rfl, by decide⟩
  obtain ⟨first, rest, rfl, noMark⟩ := begins
  unfold withoutMark
  split
  · rename_i starts
    cases starts
    exact (noMark rfl).elim
  · rfl

/-- However a document is written, its fields are the innermost elements below the root with their
names and their trimmed text, in the order of the document: none is lost, none is repeated, and
text around elements is part of no field. -/
theorem leaf_values_of_document {name : List Char} {content : List Item} {text : String}
    (written : WritesDocument (.element name content) text.toList) :
    leafValues text = .ok ((leavesOf content).map fun field =>
      (String.ofList field.1, String.ofList field.2)) := by
  obtain ⟨unmarked, spelled, parts⟩ := written
  have mark : withoutMark text.toList = unmarked := by
    rcases parts with plain | marked
    · rw [plain]
      exact without_mark_of_spelled spelled
    · rw [marked]
      rfl
  have fields : leafFields text.toList = .ok (leavesOf content) := by
    rw [leaf_fields_eq, mark]
    exact read_root spelled rfl
  rw [leafValues, fields]
  rfl

/-! A document with a declaration, prefixes, an attribute, a comment, blanks, references of both
numbers and names, text beside an element, and empty elements written in both ways. -/

def surveyValue : List Item := "A&BC".toList.map .character

def surveyGroup : List Item := [.character 't', .element ['f'] []]

def surveyContent : List Item :=
  [.element ['n'] surveyValue, .element ['e'] [], .element ['g'] surveyGroup]

def surveyText : String :=
  "<?xml version='1.0'?>\n<h:data a=\"x>y\">\n<n >A&amp;&#66;&#x43;</n ><e/><!--n-->" ++
    "<g>t<f></f></g></h:data>"

theorem survey_written : WritesDocument (.element "data".toList surveyContent)
    surveyText.toList := by
  have single : ∀ name, isNameChar name = true → TagName [name] [name] :=
    fun name named => .plain ⟨List.cons_ne_nil _ _, by simpa using named⟩
  have bare : Attributes [] := .blank rfl
  have flush : IsBlank [] := rfl
  have space : IsBlank [' '] := rfl
  have plainA : Writes 'A' ['A'] := .literal (by decide) (by decide)
  have plainT : Writes 't' ['t'] := .literal (by decide) (by decide)
  have decimal := @Writes.decimal 'B' ['6', '6']
    ⟨by decide, [6, 6], .cons (by decide) (.cons (by decide) .nil), rfl⟩
  have hexadecimal := @Writes.hexadecimal 'C' ['4', '3']
    ⟨by decide, [4, 3], .cons (by decide) (.cons (by decide) .nil), rfl⟩
  have declaration := @Aside.instruction 'x' "ml version='1.0'".toList rfl (by decide +kernel)
  have comment := @Aside.comment ['n'] (by decide +kernel) (by decide)
  have prefixed := @TagName.prefixed "data".toList ['h'] (by decide) (by decide)
  have valued := Attributes.valued (List.cons_ne_nil ' ' []) space (single 'a' rfl) flush flush
    (.inl rfl) (by decide : '"' ∉ "x>y".toList) bare
  -- Every text follows from the pieces, and the whole is compared with the document once.
  have value := Spelled.character plainA (.character .ampersand
    (.character decimal (.character hexadecimal (@Spelled.nil false))))
  have inner := Spelled.character plainT
    (@Spelled.element true _ _ _ [] _ _ [] [] (single 'f' rfl) bare .nil flush .nil)
  have group := @Spelled.element true _ _ _ _ _ _ surveyGroup _ (single 'g' rfl) bare inner flush
    .nil
  have content := @Spelled.blank '\n' _ _ rfl (@Spelled.element true _ _ _ _ _ _ surveyValue _
    (single 'n' rfl) (.blank space) value space
    (.emptyTag (single 'e' rfl) bare (.aside comment group)))
  have root := @Spelled.element true _ _ _ _ _ _ surveyContent _ prefixed valued content flush .nil
  exact ⟨_, .aside declaration (@Spelled.blank '\n' _ _ rfl root), .inl rfl⟩

theorem survey_fields : WritesDocument (.element "data".toList surveyContent) surveyText.toList ∧
    leafValues surveyText = .ok [("n", "A&BC"), ("e", ""), ("f", "")] :=
  ⟨survey_written, (leaf_values_of_document survey_written).trans rfl⟩

end Markup

end FieldPost
