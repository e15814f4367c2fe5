import FieldPost.Text.Blank
import Mathlib.Data.List.DropRight

/-!
Blanks at the end of a text. Trimming takes them away up to the last character that is none, and
never reaches past it. A text made of others is blank exactly when all of them are. What is at the
beginning of a text is not looked at here.
-/

namespace FieldPost.Text

theorem trim_end_eq (text : List Char) : trimEnd text = text.rdropWhile isBlank := rfl

theorem trim_end_append (text last : List Char) :
    trimEnd (text ++ last) =
      if last.all isBlank then trimEnd text else text ++ trimEnd last := by
  have blank : (last.reverse.dropWhile isBlank).isEmpty = last.all isBlank := by
    rw [Bool.eq_iff_iff, List.isEmpty_iff, List.dropWhile_eq_nil_iff, List.all_eq_true]
    simp only [List.mem_reverse]
  simp only [trimEnd, List.reverse_append, List.dropWhile_append, blank]
  split
  · rfl
  · rw [List.reverse_append, List.reverse_reverse]

theorem trim_end_append_of_blank (text : List Char) {last : List Char}
    (blank : last.all isBlank = true) : trimEnd (text ++ last) = trimEnd text := by
  rw [trim_end_append, if_pos blank]

theorem trim_end_append_of_filled (text : List Char) {last : List Char}
    (filled : last.all isBlank = false) : trimEnd (text ++ last) = text ++ trimEnd last := by
  rw [trim_end_append, filled, if_neg Bool.false_ne_true]

/-- What trimming leaves ends in a character that is not blank. -/
theorem filled_of_trim_end {text : List Char} (some : trimEnd text ≠ []) :
    (trimEnd text).all isBlank = false := by
  have last := List.rdropWhile_last_not isBlank text some
  rw [List.all_eq_false]
  exact ⟨_, List.getLast_mem some, last⟩

theorem filled_of_trim {text : List Char} (some : trim text ≠ []) :
    (trim text).all isBlank = false :=
  filled_of_trim_end some

theorem is_blank_text_append (left right : String) :
    isBlankText (left ++ right) = (isBlankText left && isBlankText right) := by
  rw [isBlankText, String.toList_append, List.all_append, isBlankText, isBlankText]

theorem is_blank_text_of_list (text : List Char) :
    isBlankText (String.ofList text) = text.all isBlank := by
  rw [isBlankText, String.toList_ofList]

end FieldPost.Text
