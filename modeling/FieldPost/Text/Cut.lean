/-!
Cutting a text at the first place where a mark occurs. The mark itself belongs
to neither side, so the two sides with the mark between them are the text.
-/

namespace FieldPost.Text

/-- What follows `mark` when the text begins with it. -/
def dropMark? : List Char → List Char → Option (List Char)
  | [], text => some text
  | _ :: _, [] => none
  | wanted :: mark, char :: text => if wanted = char then dropMark? mark text else none

theorem eq_append_of_dropMark? {mark text rest : List Char}
    (found : dropMark? mark text = some rest) : text = mark ++ rest := by
  induction mark generalizing text with
  | nil => simpa [dropMark?] using found
  | cons wanted mark induction =>
      cases text with
      | nil => simp [dropMark?] at found
      | cons char text =>
          by_cases same : wanted = char
          · simp only [dropMark?, same, if_true] at found
            simp [induction found, same]
          · simp [dropMark?, same] at found

/-- The sides of the first occurrence of `mark`, or nothing when it does not occur. -/
def cutAt (mark : List Char) : List Char → Option (List Char × List Char)
  | [] => match mark with
      | [] => some ([], [])
      | _ :: _ => none
  | char :: text =>
      match dropMark? mark (char :: text) with
      | some rest => some ([], rest)
      | none => (cutAt mark text).map fun sides => (char :: sides.1, sides.2)

theorem eq_append_of_cutAt {mark text before after : List Char}
    (found : cutAt mark text = some (before, after)) : text = before ++ mark ++ after := by
  induction text generalizing before with
  | nil => cases mark <;> simp_all [cutAt]
  | cons char text induction =>
      cases head : dropMark? mark (char :: text) with
      | some rest =>
          simp only [cutAt, head, Option.some.injEq, Prod.mk.injEq] at found
          obtain ⟨rfl, rfl⟩ := found
          simpa using eq_append_of_dropMark? head
      | none =>
          simp only [cutAt, head, Option.map_eq_some_iff] at found
          obtain ⟨⟨left, right⟩, inner, same⟩ := found
          simp only [Prod.mk.injEq] at same
          obtain ⟨rfl, rfl⟩ := same
          simp [induction inner]

def cutAtChar (mark : Char) (text : List Char) : Option (List Char × List Char) :=
  cutAt [mark] text

/-- The pieces between the occurrences of a character: always one more than these. -/
def splitOnChar (mark : Char) : List Char → List (List Char)
  | [] => [[]]
  | char :: text =>
      if char = mark then [] :: splitOnChar mark text
      else match splitOnChar mark text with
        | [] => [[char]]
        | piece :: pieces => (char :: piece) :: pieces

theorem splitOnChar_eq_splitOn (mark : Char) (text : List Char) :
    splitOnChar mark text = text.splitOn mark := by
  induction text with
  | nil => rw [splitOnChar, List.splitOn_nil]
  | cons char text induction =>
      rw [splitOnChar, induction, List.splitOn_cons_eq_if_modifyHead]
      by_cases same : char = mark
      · simp [same]
      · cases pieces : text.splitOn mark with
        | nil => exact absurd pieces (List.splitOn_ne_nil mark text)
        | cons piece rest => simp [same]

/-- A piece holds characters of the text, and never the mark. -/
theorem mem_of_mem_splitOnChar {mark : Char} {text piece : List Char}
    (member : piece ∈ splitOnChar mark text) {char : Char} (inside : char ∈ piece) :
    char ∈ text ∧ char ≠ mark := by
  induction text generalizing piece with
  | nil =>
      rw [splitOnChar, List.mem_singleton] at member
      subst member
      cases inside
  | cons first text induction =>
      rw [splitOnChar] at member
      by_cases same : first = mark
      · rw [if_pos same] at member
        rcases List.mem_cons.mp member with rfl | later
        · cases inside
        · exact ⟨List.mem_cons_of_mem first (induction later inside).1, (induction later inside).2⟩
      · rw [if_neg same] at member
        cases pieces : splitOnChar mark text with
        | nil => simp_all
        | cons head rest =>
            rw [pieces] at member induction
            rcases List.mem_cons.mp member with rfl | later
            · rcases List.mem_cons.mp inside with rfl | deeper
              · exact ⟨List.mem_cons_self, same⟩
              · have found := induction List.mem_cons_self deeper
                exact ⟨List.mem_cons_of_mem first found.1, found.2⟩
            · have found := induction (List.mem_cons_of_mem head later) inside
              exact ⟨List.mem_cons_of_mem first found.1, found.2⟩

end FieldPost.Text
