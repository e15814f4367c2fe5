import FieldPost.Proofs.LeafFields

/-!
Passages of documents: texts that begin and end between two pieces of markup, with the tags that
are open at both ends. A passage says its characters and references. Comments, instructions,
quoted sections and document types add nothing to that, because the reader skips them. It takes
a document type to end at the bracket that answers its first one, so only those are among the ways
to write whose brackets are in pairs. Whether tags that are still open are closed later is not
said.
-/

namespace FieldPost.Markup

open FieldPost.Text

/-! ### What is skipped -/

/-- Texts with their angle brackets in pairs. -/
inductive Paired : List Char → Prop
  | nil : Paired []
  | plain {char : Char} {text : List Char} (less : char ≠ '<') (greater : char ≠ '>')
      (more : Paired text) : Paired (char :: text)
  | bracketed {inside text : List Char} (within : Paired inside) (more : Paired text) :
      Paired ('<' :: (inside ++ '>' :: text))

theorem paired_of_plain {text : List Char} (less : '<' ∉ text) (greater : '>' ∉ text) :
    Paired text := by
  induction text with
  | nil => exact .nil
  | cons char text induction =>
      simp only [List.mem_cons, not_or] at less greater
      exact .plain (Ne.symm less.1) (Ne.symm greater.1) (induction less.2 greater.2)

theorem cut_balanced_of_paired {text : List Char} (paired : Paired text) (depth : Nat)
    (rest : List Char) : cutBalanced depth (text ++ rest) =
      (cutBalanced depth rest).map fun sides => (text ++ sides.1, sides.2) := by
  induction paired generalizing depth rest with
  | nil => simp
  | plain less greater more induction =>
      simp only [List.cons_append, cutBalanced, if_neg greater, if_neg less, induction]
      simp [Function.comp_def]
  | @bracketed inside text within more inductionInside inductionMore =>
      have parts : '<' :: (inside ++ '>' :: text) ++ rest =
          '<' :: (inside ++ '>' :: (text ++ rest)) := by simp
      have opened : cutBalanced depth ('<' :: (inside ++ '>' :: (text ++ rest))) =
          (cutBalanced (depth + 1) (inside ++ '>' :: (text ++ rest))).map
            fun sides => ('<' :: sides.1, sides.2) := by simp [cutBalanced]
      have closed : cutBalanced (depth + 1) ('>' :: (text ++ rest)) =
          (cutBalanced depth (text ++ rest)).map fun sides => ('>' :: sides.1, sides.2) := by
        simp [cutBalanced]
      rw [parts, opened, inductionInside, closed, inductionMore]
      simp [Function.comp_def]

/-- Characters that are quoted as a whole. -/
def quoted (content : List Char) : List Char :=
  "<![CDATA[".toList ++ content ++ "]]>".toList

/-- What is read over: besides asides, a quoted section, and a document type with its brackets in
pairs. -/
inductive Skipped : List Char → Prop
  | aside {written : List Char} (aside : Aside written) : Skipped written
  | quoted {content : List Char} (ends : ¬ "]]>".toList <:+: content) : Skipped (quoted content)
  | doctype {text : List Char} (paired : Paired text) (named : ¬ IsBlank text) :
      Skipped ("<!DOCTYPE".toList ++ text ++ ">".toList)

theorem cut_at_section_end {text : List Char} (ends : ¬ "]]>".toList <:+: text)
    (rest : List Char) : cutAt "]]>".toList (text ++ "]]>".toList ++ rest) = some (text, rest) := by
  apply cut_at_first
  · exact List.cons_ne_nil _ _
  intro part filled within begins
  rcases part with _ | ⟨first, _ | ⟨second, _ | ⟨third, part⟩⟩⟩
  · exact filled rfl
  · obtain ⟨_, later⟩ := List.cons_prefix_cons.mp begins
    have impossible : '>' = ']' := (List.cons_prefix_cons.mp (List.cons_prefix_cons.mp later).2).1
    revert impossible
    decide
  · obtain ⟨_, later⟩ := List.cons_prefix_cons.mp begins
    have impossible : '>' = ']' := (List.cons_prefix_cons.mp (List.cons_prefix_cons.mp later).2).1
    revert impossible
    decide
  · have marks : "]]>".toList <+: first :: second :: third :: part :=
      List.prefix_of_prefix_length_le begins (List.prefix_append _ _) (by simp)
    exact ends (marks.isInfix.trans within.isInfix)

theorem next_section {content : List Char} (ends : ¬ "]]>".toList <:+: content)
    (rest : List Char) :
    next '<' ("![CDATA[".toList ++ content ++ "]]>".toList ++ rest) = (.skipped, rest) := by
  have endsAll : ¬ "]]>".toList <:+: "[CDATA[".toList ++ content := by
    simpa [List.infix_cons_iff, List.cons_prefix_cons] using ends
  have whole := cut_at_section_end endsAll rest
  have marked := drop_mark_self "[CDATA[".toList (content ++ "]]>".toList ++ rest)
  have parts : "![CDATA[".toList ++ content ++ "]]>".toList ++ rest =
      '!' :: ("[CDATA[".toList ++ content ++ "]]>".toList ++ rest) := rfl
  rw [parts]
  change nextSection ("[CDATA[".toList ++ content ++ "]]>".toList ++ rest) = _
  rw [← List.append_assoc, ← List.append_assoc] at marked
  simp only [nextSection, marked, whole]

theorem is_space_to_lower (char : Char) : isSpace char.toLower = isSpace char := by
  have ascii : ∀ code < 128, isSpace (Char.ofNat code).toLower = isSpace (Char.ofNat code) := by
    decide +kernel
  by_cases small : char.toNat < 128
  · rw [← Char.ofNat_toNat char]
    exact ascii char.toNat small
  · have unchanged : char.toLower = char := by
      unfold Char.toLower
      split
      · rename_i upper
        have bound : char.toNat ≤ 'Z'.toNat := upper.2
        exact (small (Nat.lt_of_le_of_lt bound (by decide))).elim
      · rfl
    rw [unchanged]

theorem next_doctype {text : List Char} (paired : Paired text) (named : ¬ IsBlank text)
    (rest : List Char) :
    next '<' ("!DOCTYPE".toList ++ text ++ ">".toList ++ rest) = (.skipped, rest) := by
  have keyword : Paired "DOCTYPE".toList := paired_of_plain (by decide) (by decide)
  have whole : cutBalanced 0 ("DOCTYPE".toList ++ text ++ ">".toList ++ rest) =
      some ("DOCTYPE".toList ++ text, rest) := by
    rw [List.append_assoc, List.append_assoc, cut_balanced_of_paired keyword,
      cut_balanced_of_paired paired]
    simp [cutBalanced]
  have lowered : dropMark? "doctype".toList (("DOCTYPE".toList ++ text).map Char.toLower) =
      some (text.map Char.toLower) := by
    rw [List.map_append]
    exact drop_mark_self "doctype".toList _
  have filled : ¬(text.map Char.toLower).all isSpace = true := by
    rw [List.all_map]
    simp only [Function.comp_def, is_space_to_lower]
    exact named
  change nextDoctype ("DOCTYPE".toList ++ text ++ ">".toList ++ rest) = _
  simp only [nextDoctype, whole, lowered, if_neg filled]

theorem tokens_of_skipped {written : List Char} (skipped : Skipped written) (rest : List Char) :
    tokens (written ++ rest) = .skipped :: tokens rest := by
  cases skipped with
  | aside aside => exact tokens_of_aside aside rest
  | quoted ends => exact tokens_of_next (next_section ends rest)
  | doctype paired named => exact tokens_of_next (next_doctype paired named rest)

/-! ### What is said -/

/-- The names that stand for a character. -/
def namedCharacters : List (List Char) := ["lt", "gt", "amp", "apos", "quot"].map String.toList

/-- A character as it may be written, or a reference by a name that stands for none, which says
itself. -/
inductive Carries : (said written : List Char) → Prop
  | character {char : Char} {written : List Char} (writes : Writes char written) :
      Carries [char] written
  | unknown {name : List Char} (plain : name.all (fun char => !endsReference char) = true)
      (notNumber : name.head? ≠ some '#') (notNamed : name ∉ namedCharacters) :
      Carries ('&' :: (name ++ [';'])) ('&' :: (name ++ [';']))

theorem resolve_unknown {name : List Char} (notNumber : name.head? ≠ some '#')
    (notNamed : name ∉ namedCharacters) : resolve name = .ok ('&' :: (name ++ [';'])) := by
  have none : named? name = none := by
    rw [named?, List.lookup_eq_none_iff]
    simpa [namedCharacters] using notNamed
  unfold resolve
  split
  · exact (notNumber rfl).elim
  · rw [none]
    rfl

/-- What is said is a character that ends no text, or what a reference is resolved to. -/
theorem Carries.literal_or_reference {said written : List Char} (carries : Carries said written) :
    (∃ char, said = [char] ∧ written = [char] ∧ endsText char = false) ∨
      ∃ content, written = '&' :: (content ++ [';']) ∧
        content.all (fun char => !endsReference char) = true ∧ resolve content = .ok said := by
  cases carries with
  | character writes =>
      rcases written_char writes with ⟨rfl, plain⟩ | reference
      · exact .inl ⟨_, rfl, rfl, plain⟩
      · exact .inr reference
  | unknown plain notNumber notNamed =>
      exact .inr ⟨_, rfl, plain, resolve_unknown notNumber notNamed⟩

/-- The ways to write characters one by one. -/
inductive Escapes : (content written : List Char) → Prop
  | nil : Escapes [] []
  | cons {char : Char} {written content text : List Char} (writes : Writes char written)
      (more : Escapes content text) : Escapes (char :: content) (written ++ text)

theorem escapes_of_plain {text : List Char} (less : '<' ∉ text) (ampersand : '&' ∉ text) :
    Escapes text text := by
  induction text with
  | nil => exact .nil
  | cons char text induction =>
      simp only [List.mem_cons, not_or] at less ampersand
      exact .cons (.literal (Ne.symm less.1) (Ne.symm ampersand.1))
        (induction less.2 ampersand.2)

/-! ### Passages -/

/-- A passage with elements of certain names only, and with certain texts that are skipped: the
tags that are open before it, innermost first, what it says, the tags that are open after it, and
its text. -/
inductive Passage (names skips : List Char → Prop) :
    (before : List (List Char)) → (said : List Char) → (after : List (List Char)) →
      (text : List Char) → Prop
  | nil {opens : List (List Char)} : Passage names skips opens [] opens []
  | characters {before after : List (List Char)} {first said written text : List Char}
      (carries : Carries first written) (more : Passage names skips before said after text) :
      Passage names skips before (first ++ said) after (written ++ text)
  | skipped {before after : List (List Char)} {said written text : List Char}
      (skipped : skips written) (more : Passage names skips before said after text) :
      Passage names skips before said after (written ++ text)
  | emptyTag {before after : List (List Char)} {name tag attributes said text : List Char}
      (allowed : names name) (named : TagName name tag) (attributed : Attributes attributes)
      (more : Passage names skips before said after text) :
      Passage names skips before said after ('<' :: (tag ++ attributes ++ '/' :: '>' :: text))
  | startTag {before after : List (List Char)} {name tag attributes said text : List Char}
      (allowed : names name) (named : TagName name tag) (attributed : Attributes attributes)
      (more : Passage names skips (tag :: before) said after text) :
      Passage names skips before said after ('<' :: (tag ++ attributes ++ '>' :: text))
  | endTag {before after : List (List Char)} {name tag gap said text : List Char}
      (allowed : names name) (named : TagName name tag) (blank : IsBlank gap)
      (more : Passage names skips before said after text) :
      Passage names skips (tag :: before) said after ('<' :: '/' :: (tag ++ gap ++ '>' :: text))

section

variable (tag attributes gap text rest : List Char)

theorem empty_tag_append : '<' :: (tag ++ attributes ++ '/' :: '>' :: text) ++ rest =
    '<' :: (tag ++ attributes ++ '/' :: '>' :: (text ++ rest)) := by
  simp

theorem start_tag_append : '<' :: (tag ++ attributes ++ '>' :: text) ++ rest =
    '<' :: (tag ++ attributes ++ '>' :: (text ++ rest)) := by
  simp

theorem end_tag_append : '<' :: '/' :: (tag ++ gap ++ '>' :: text) ++ rest =
    '<' :: '/' :: (tag ++ gap ++ '>' :: (text ++ rest)) := by
  simp

end

section

variable {names skips others : List Char → Prop} {before middle after : List (List Char)}
  {said later text more : List Char}

theorem Passage.append (first : Passage names skips before said middle text)
    (second : Passage names skips middle later after more) :
    Passage names skips before (said ++ later) after (text ++ more) := by
  induction first with
  | nil => exact second
  | characters carries _ induction =>
      rw [List.append_assoc, List.append_assoc]
      exact .characters carries (induction second)
  | skipped skipped _ induction =>
      rw [List.append_assoc]
      exact .skipped skipped (induction second)
  | emptyTag allowed named attributed _ induction =>
      rw [empty_tag_append]
      exact .emptyTag allowed named attributed (induction second)
  | startTag allowed named attributed _ induction =>
      rw [start_tag_append]
      exact .startTag allowed named attributed (induction second)
  | endTag allowed named blank _ induction =>
      rw [end_tag_append]
      exact .endTag allowed named blank (induction second)

theorem Passage.mono (weaker : ∀ written, skips written → others written)
    (passage : Passage names skips before said after text) :
    Passage names others before said after text := by
  induction passage with
  | nil => exact .nil
  | characters carries _ induction => exact .characters carries induction
  | skipped skipped _ induction => exact .skipped (weaker _ skipped) induction
  | emptyTag allowed named attributed _ induction =>
      exact .emptyTag allowed named attributed induction
  | startTag allowed named attributed _ induction =>
      exact .startTag allowed named attributed induction
  | endTag allowed named blank _ induction => exact .endTag allowed named blank induction

theorem Escapes.passage {content escaped : List Char} (escapes : Escapes content escaped)
    (opens : List (List Char)) : Passage names skips opens content opens escaped := by
  induction escapes with
  | nil => exact .nil
  | cons writes _ induction => exact .characters (.character writes) induction

end

/-- A place within an element of this name: what comes before the element, and its tags. -/
structure Place (names skips : List Char → Prop) (name : List Char) where
  opens : List (List Char)
  said : List Char
  before : List Char
  begins : Passage names skips [] said opens before
  tag : List Char
  named : TagName name tag
  attributes : List Char
  attributed : Attributes attributes
  gap : List Char
  blank : IsBlank gap

/-- The document with this content at the place, and with any text after the element. -/
def Place.document {names skips : List Char → Prop} {name : List Char}
    (place : Place names skips name) (content after : List Char) : List Char :=
  place.before ++ '<' :: (place.tag ++ place.attributes ++ '>' ::
    (content ++ '<' :: '/' :: (place.tag ++ place.gap ++ '>' :: after)))

end FieldPost.Markup
