import FieldPost.Markup.Token

/-!
The tokens of a text that is cut off. Markup that ends within a text ends there whatever follows,
so a text has the tokens of its beginning up to the place where it was cut. There the beginning may
end in a shorter piece of text, or in markup that is not finished.
-/

namespace FieldPost

namespace Text

theorem drop_mark_self (mark rest : List Char) : dropMark? mark (mark ++ rest) = some rest := by
  induction mark with
  | nil => rfl
  | cons wanted mark induction => simpa [dropMark?] using induction

theorem drop_mark_append {mark text rest : List Char} (found : dropMark? mark text = some rest)
    (more : List Char) : dropMark? mark (text ++ more) = some (rest ++ more) := by
  rw [eq_append_of_dropMark? found, List.append_assoc]
  exact drop_mark_self mark _

/-- A mark that does not begin a text which is long enough for it begins no continuation. -/
theorem drop_mark_none_append {mark text : List Char} (missing : dropMark? mark text = none)
    (long : mark.length ≤ text.length) (more : List Char) :
    dropMark? mark (text ++ more) = none := by
  induction mark generalizing text with
  | nil => simp [dropMark?] at missing
  | cons wanted mark induction =>
      cases text with
      | nil => simp at long
      | cons char text =>
          by_cases same : wanted = char
          · simp only [dropMark?, if_pos same, List.cons_append] at missing ⊢
            exact induction missing (by simpa using long)
          · simp only [dropMark?, if_neg same, List.cons_append]

theorem cut_at_append {mark text before after : List Char}
    (found : cutAt mark text = some (before, after)) (more : List Char) :
    cutAt mark (text ++ more) = some (before, after ++ more) := by
  induction text generalizing before with
  | nil =>
      cases mark with
      | nil =>
          cases found
          cases more <;> rfl
      | cons wanted mark => cases found
  | cons char text induction =>
      cases head : dropMark? mark (char :: text) with
      | some rest =>
          simp only [cutAt, head, Option.some.injEq, Prod.mk.injEq] at found
          obtain ⟨rfl, rfl⟩ := found
          have still := drop_mark_append head more
          rw [List.cons_append] at still ⊢
          simp only [cutAt, still]
      | none =>
          simp only [cutAt, head, Option.map_eq_some_iff] at found
          obtain ⟨⟨left, right⟩, inner, same⟩ := found
          simp only [Prod.mk.injEq] at same
          obtain ⟨rfl, rfl⟩ := same
          -- The mark is found further on, so there was room for it here.
          have room : mark.length ≤ (char :: text).length := by
            have parts := congrArg List.length (eq_append_of_cutAt inner)
            simp only [List.length_append, List.length_cons] at parts ⊢
            omega
          have still := drop_mark_none_append head room more
          rw [List.cons_append] at still ⊢
          simp only [cutAt, still, induction inner, Option.map_some]

end Text

namespace Markup

open FieldPost.Text

/-! ### Cuts -/

/-- The closing bracket of a tag stands between the two sides, and closes every continuation. -/
theorem cut_tag_append {quote : Option Char} {text content rest : List Char}
    (found : cutTag quote text = some (content, rest)) :
    text = content ++ '>' :: rest ∧
      ∀ more, cutTag quote (text ++ more) = some (content, rest ++ more) := by
  induction text generalizing quote content with
  | nil => cases quote <;> cases found
  | cons char text induction =>
      cases quote with
      | none =>
          by_cases closes : char = '>'
          · simp only [cutTag, if_pos closes, Option.some.injEq, Prod.mk.injEq] at found
            obtain ⟨rfl, rfl⟩ := found
            refine ⟨by rw [closes]; rfl, ?_⟩
            intro more
            simp only [List.cons_append, cutTag, if_pos closes]
          · simp only [cutTag, if_neg closes, Option.map_eq_some_iff] at found
            obtain ⟨⟨inner, left⟩, later, same⟩ := found
            cases same
            obtain ⟨parts, still⟩ := induction later
            refine ⟨by rw [parts]; rfl, ?_⟩
            intro more
            simp only [List.cons_append, cutTag, if_neg closes, still, Option.map_some]
      | some quote =>
          simp only [cutTag, Option.map_eq_some_iff] at found
          obtain ⟨⟨inner, left⟩, later, same⟩ := found
          cases same
          obtain ⟨parts, still⟩ := induction later
          refine ⟨by rw [parts]; rfl, ?_⟩
          intro more
          simp only [List.cons_append, cutTag, still, Option.map_some]

theorem cut_balanced_append {depth : Nat} {text content rest : List Char}
    (found : cutBalanced depth text = some (content, rest)) :
    text = content ++ '>' :: rest ∧
      ∀ more, cutBalanced depth (text ++ more) = some (content, rest ++ more) := by
  induction text generalizing depth content with
  | nil => cases depth <;> cases found
  | cons char text induction =>
      by_cases closes : char = '>'
      · cases depth with
        | zero =>
            simp only [cutBalanced, if_pos closes, Option.some.injEq, Prod.mk.injEq] at found
            obtain ⟨rfl, rfl⟩ := found
            refine ⟨by rw [closes]; rfl, ?_⟩
            intro more
            simp only [List.cons_append, cutBalanced, if_pos closes]
        | succ depth =>
            simp only [cutBalanced, if_pos closes, Option.map_eq_some_iff] at found
            obtain ⟨⟨inner, left⟩, later, same⟩ := found
            cases same
            obtain ⟨parts, still⟩ := induction later
            refine ⟨by rw [parts]; rfl, ?_⟩
            intro more
            simp only [List.cons_append, cutBalanced, if_pos closes, still, Option.map_some]
      · simp only [cutBalanced, if_neg closes, Option.map_eq_some_iff] at found
        obtain ⟨⟨inner, left⟩, later, same⟩ := found
        cases same
        obtain ⟨parts, still⟩ := induction later
        refine ⟨by rw [parts]; rfl, ?_⟩
        intro more
        simp only [List.cons_append, cutBalanced, if_neg closes, still, Option.map_some]

/-- What follows the closing bracket is the end of the text. -/
theorem suffix_of_closed {text content rest : List Char} (parts : text = content ++ '>' :: rest) :
    rest <:+ text :=
  ⟨content ++ ['>'], by rw [parts, List.append_assoc]; rfl⟩

/-! ### Readers -/

/-- On this text a reader fails, or it reads the same of every continuation. -/
def Settled (read : List Char → Token × List Char) (text : List Char) : Prop :=
  (∃ fault, read text = fail fault) ∨
    ∃ token rest, (∀ fault, token ≠ .fault fault) ∧ rest <:+ text ∧
      ∀ more, read (text ++ more) = (token, rest ++ more)

section

variable {read other : List Char → Token × List Char} {text longer : List Char}

theorem Settled.of_suffix (settled : Settled read text) (suffix : text <:+ longer)
    (same : ∀ more, other (longer ++ more) = read (text ++ more)) : Settled other longer := by
  have atEnd := same []
  rw [List.append_nil, List.append_nil] at atEnd
  rcases settled with ⟨fault, failed⟩ | ⟨token, rest, clean, within, reads⟩
  · exact .inl ⟨fault, atEnd.trans failed⟩
  · exact .inr ⟨token, rest, clean, within.trans suffix, fun more => (same more).trans (reads more)⟩

end

theorem next_tag_settled (text : List Char) : Settled nextTag text := by
  rcases cut : cutTag none text with _ | ⟨content, rest⟩
  · exact .inl ⟨.tagNotClosed, by simp only [nextTag, cut]⟩
  · obtain ⟨parts, still⟩ := cut_tag_append cut
    have within := suffix_of_closed parts
    right
    by_cases slash : content.getLast? = some '/'
    · refine ⟨.emptyTag content.dropLast, rest, by simp, within, ?_⟩
      intro more
      simp only [nextTag, still, if_pos slash]
    · refine ⟨.openTag content, rest, by simp, within, ?_⟩
      intro more
      simp only [nextTag, still, if_neg slash]

theorem next_end_tag_settled (text : List Char) : Settled nextEndTag text := by
  rcases cut : cutTag none text with _ | ⟨content, rest⟩
  · exact .inl ⟨.tagNotClosed, by simp only [nextEndTag, cut]⟩
  · obtain ⟨parts, still⟩ := cut_tag_append cut
    refine .inr ⟨.closeTag content, rest, by simp, suffix_of_closed parts, ?_⟩
    intro more
    simp only [nextEndTag, still]

theorem next_instruction_settled (text : List Char) : Settled nextInstruction text := by
  rcases cut : cutAt "?>".toList text with _ | ⟨_ | ⟨char, content⟩, rest⟩
  · exact .inl ⟨.instructionNotClosed, by simp only [nextInstruction, cut]⟩
  · exact .inl ⟨.instructionNotClosed, by simp only [nextInstruction, cut]⟩
  · have within : rest <:+ text := ⟨_, (eq_append_of_cutAt cut).symm⟩
    refine .inr ⟨.skipped, rest, by simp, within, ?_⟩
    intro more
    simp only [nextInstruction, cut_at_append cut]

theorem next_section_settled (text : List Char) : Settled nextSection text := by
  rcases mark : dropMark? "[CDATA[".toList text with _ | body
  · exact .inl ⟨.sectionNotClosed, by simp only [nextSection, mark]⟩
  rcases cut : cutAt "]]>".toList text with _ | ⟨content, rest⟩
  · exact .inl ⟨.sectionNotClosed, by simp only [nextSection, mark, cut]⟩
  · have within : rest <:+ text := ⟨_, (eq_append_of_cutAt cut).symm⟩
    refine .inr ⟨.skipped, rest, by simp, within, ?_⟩
    intro more
    simp only [nextSection, drop_mark_append mark, cut_at_append cut]

theorem next_comment_settled (text : List Char) : Settled nextComment text := by
  rcases mark : dropMark? "--".toList text with _ | body
  · exact .inl ⟨.commentNotClosed, by simp only [nextComment, mark]⟩
  rcases cut : cutAt "-->".toList body with _ | ⟨content, rest⟩
  · exact .inl ⟨.commentNotClosed, by simp only [nextComment, mark, cut]⟩
  · have ofBody : rest <:+ body := ⟨_, (eq_append_of_cutAt cut).symm⟩
    have within : rest <:+ text := ofBody.trans ⟨_, (eq_append_of_dropMark? mark).symm⟩
    refine .inr ⟨.skipped, rest, by simp, within, ?_⟩
    intro more
    simp only [nextComment, drop_mark_append mark, cut_at_append cut]

theorem next_doctype_settled (text : List Char) : Settled nextDoctype text := by
  rcases cut : cutBalanced 0 text with _ | ⟨content, rest⟩
  · exact .inl ⟨.doctypeNotClosed, by simp only [nextDoctype, cut]⟩
  rcases mark : dropMark? "doctype".toList (content.map Char.toLower) with _ | named
  · exact .inl ⟨.doctypeNotClosed, by simp only [nextDoctype, cut, mark]⟩
  by_cases blank : named.all isSpace = true
  · exact .inl ⟨.doctypeNotNamed, by simp only [nextDoctype, cut, mark, if_pos blank]⟩
  · obtain ⟨parts, still⟩ := cut_balanced_append cut
    refine .inr ⟨.skipped, rest, by simp, suffix_of_closed parts, ?_⟩
    intro more
    simp only [nextDoctype, still, mark, if_neg blank]

theorem next_declaration_settled (text : List Char) : Settled nextDeclaration text := by
  rcases text with _ | ⟨first, rest⟩
  · exact .inl ⟨.unknownMarkup, rfl⟩
  by_cases isSection : first = '['
  · subst isSection
    exact next_section_settled ('[' :: rest)
  by_cases isComment : first = '-'
  · subst isComment
    exact next_comment_settled ('-' :: rest)
  by_cases isDoctype : first = 'D' ∨ first = 'd'
  · rcases isDoctype with rfl | rfl
    · exact next_doctype_settled ('D' :: rest)
    · exact next_doctype_settled ('d' :: rest)
  · left
    refine ⟨.unknownMarkup, ?_⟩
    unfold nextDeclaration
    rw [List.head?_cons]
    split <;> simp_all

theorem next_markup_settled (text : List Char) : Settled nextMarkup text := by
  rcases text with _ | ⟨first, rest⟩
  · exact .inl ⟨.tagNotClosed, rfl⟩
  by_cases isDeclaration : first = '!'
  · subst isDeclaration
    exact (next_declaration_settled rest).of_suffix (List.suffix_cons _ _) fun _ => rfl
  by_cases isEnd : first = '/'
  · subst isEnd
    exact (next_end_tag_settled rest).of_suffix (List.suffix_cons _ _) fun _ => rfl
  by_cases isInstruction : first = '?'
  · subst isInstruction
    exact (next_instruction_settled ('?' :: rest)).of_suffix (List.suffix_refl _) fun _ => rfl
  · refine (next_tag_settled (first :: rest)).of_suffix (List.suffix_refl _) ?_
    intro more
    rw [List.cons_append]
    unfold nextMarkup
    split <;> simp_all

theorem while_append {inside : Char → Bool} {text rest : List Char} {last : Char}
    (dropped : text.dropWhile inside = last :: rest) (more : List Char) :
    (text ++ more).dropWhile inside = last :: (rest ++ more) ∧
      (text ++ more).takeWhile inside = text.takeWhile inside := by
  constructor
  · rw [List.dropWhile_append, dropped]
    rfl
  · rw [List.takeWhile_append, if_neg]
    have parts := congrArg List.length (List.takeWhile_append_dropWhile (p := inside) (l := text))
    rw [dropped, List.length_append, List.length_cons] at parts
    omega

theorem next_reference_settled (text : List Char) : Settled nextReference text := by
  rcases dropped : text.dropWhile fun char => !endsReference char with _ | ⟨last, rest⟩
  · exact .inl ⟨.referenceNotClosed, by simp only [nextReference, dropped]⟩
  by_cases closes : last = ';'
  · subst closes
    have within : rest <:+ text :=
      (List.suffix_cons ';' rest).trans (dropped ▸ List.dropWhile_suffix _)
    refine .inr ⟨.reference (text.takeWhile fun char => !endsReference char), rest, by simp,
      within, ?_⟩
    intro more
    simp only [nextReference, while_append dropped more]
  · left
    refine ⟨.referenceNotClosed, ?_⟩
    unfold nextReference
    split
    · rename_i found
      rw [dropped] at found
      exact (closes (List.cons.inj found).1).elim
    · rfl

/-- Markup settles what it is. Text does so where something ends it. -/
theorem next_settled (first : Char) (rest : List Char) :
    Settled (next first) rest ∨
      next first rest = (.text (first :: rest), []) ∧
        ∀ more, ∃ longer left, next first (rest ++ more) =
          (.text (first :: (rest ++ longer)), left) := by
  by_cases isMarkup : first = '<'
  · refine .inl ((next_markup_settled rest).of_suffix (List.suffix_refl _) ?_)
    intro more
    simp only [next, if_pos isMarkup]
  by_cases isReference : first = '&'
  · refine .inl ((next_reference_settled rest).of_suffix (List.suffix_refl _) ?_)
    intro more
    simp only [next, if_neg isMarkup, if_pos isReference]
  rcases dropped : rest.dropWhile fun char => !endsText char with _ | ⟨last, after⟩
  · have all : rest.takeWhile (fun char => !endsText char) = rest := by
      have parts := List.takeWhile_append_dropWhile (p := fun char => !endsText char) (l := rest)
      rwa [dropped, List.append_nil] at parts
    refine .inr ⟨?_, ?_⟩
    · simp only [next, if_neg isMarkup, if_neg isReference, all, dropped]
    · intro more
      simp only [next, if_neg isMarkup, if_neg isReference, List.takeWhile_append, all, if_true]
      exact ⟨_, _, rfl⟩
  · have within : last :: after <:+ rest := dropped ▸ List.dropWhile_suffix _
    refine .inl (.inr ⟨.text (first :: rest.takeWhile fun char => !endsText char), last :: after,
      by simp, within, ?_⟩)
    intro more
    simp only [next, if_neg isMarkup, if_neg isReference, while_append dropped more,
      List.cons_append]

/-! ### Texts that are cut off -/

/-- The tokens of the beginning of a text, and those of the whole. -/
inductive CutOff : List Token → List Token → Prop
  | ended (whole : List Token) : CutOff [] whole
  | unfinished (fault : Fault) (whole : List Token) : CutOff [.fault fault] whole
  | text (chars more : List Char) (whole : List Token) :
      CutOff [.text chars] (.text (chars ++ more) :: whole)
  | same (token : Token) {short whole : List Token} (clean : ∀ fault, token ≠ .fault fault)
      (rest : CutOff short whole) : CutOff (token :: short) (token :: whole)

theorem scan_from_nil (fuel : Nat) : scanFrom fuel [] = [] := by
  cases fuel <;> rfl

theorem scan_from_cut_off (fuel more : Nat) (before after : List Char)
    (enough : before.length ≤ fuel) (enoughForAll : (before ++ after).length ≤ more) :
    CutOff (scanFrom fuel before) (scanFrom more (before ++ after)) := by
  induction fuel generalizing more before with
  | zero => exact .ended _
  | succ fuel induction =>
      rcases before with _ | ⟨first, rest⟩
      · exact .ended _
      rcases more with _ | more
      · simp at enoughForAll
      rw [List.cons_append, List.length_cons] at enoughForAll
      rw [List.length_cons] at enough
      rw [List.cons_append]
      simp only [scanFrom]
      rcases next_settled first rest with (⟨fault, failed⟩ | ⟨token, left, clean, within, reads⟩) |
        ⟨read, longer⟩
      · simp only [failed, fail, scan_from_nil]
        exact .unfinished fault _
      · have read := reads []
        rw [List.append_nil, List.append_nil] at read
        have shorter := within.length_le
        simp only [read, reads after]
        refine .same token clean (induction more left (by omega) ?_)
        rw [List.length_append] at enoughForAll ⊢
        omega
      · obtain ⟨text, left, readAll⟩ := longer after
        simp only [read, readAll, scan_from_nil]
        exact .text (first :: rest) text _

theorem scan_cut_off (before after : List Char) :
    CutOff (scan before) (scan (before ++ after)) := by
  have mark : before = [] ∨ withoutMark (before ++ after) = withoutMark before ++ after := by
    rcases before with _ | ⟨first, rest⟩
    · exact .inl rfl
    · right
      rw [List.cons_append]
      unfold withoutMark
      split <;> simp_all
  rcases mark with rfl | mark
  · exact .ended _
  · unfold scan
    rw [mark]
    exact scan_from_cut_off _ _ _ _ (Nat.le_refl _) (Nat.le_refl _)

end Markup

end FieldPost
