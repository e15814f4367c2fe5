import FieldPost.Path
import FieldPost.Proofs.Characters
import Mathlib.Data.List.Lex

/-!
What the parent and the entries of a path are to its steps. A path that names no directory is
its parent with one name more, however often slashes and dots are repeated in it, and the path
of an entry is that of its directory with one name more. Two entries of one directory are
therefore the same path exactly when their names are equal, and stand in the order of their
names. Nothing is said of the places that paths lead to.
-/

namespace FieldPost.Path

open FieldPost.Text

/-- What a file can be called in its directory. -/
structure IsName (name : String) : Prop where
  filled : name ≠ ""
  notHere : name ≠ "."
  notUp : name ≠ ".."
  unsplit : '/' ∉ name.toList
  unbroken : '\x00' ∉ name.toList

namespace IsName

variable {name : String}

theorem listed (named : IsName name) : name.toList ≠ [] :=
  fun same => named.filled (String.toList_inj.mp same)

theorem notDot (named : IsName name) : name.toList ≠ ['.'] :=
  fun same => named.notHere (String.toList_inj.mp same)

theorem step (named : IsName name) : stepOfPiece name.toList = .name name.toList := by
  have notUp : name.toList ≠ ['.', '.'] := fun same => named.notUp (String.toList_inj.mp same)
  rw [stepOfPiece, if_neg named.notDot, if_neg notUp]

end IsName

/-- What is left of a piece when it is none of the pieces that stand for something else. -/
theorem is_name_of_piece {path piece : List Char} (member : piece ∈ pieces path)
    (filled : piece ≠ []) (notHere : piece ≠ ['.']) (notUp : piece ≠ ['.', '.'])
    (unbroken : '\x00' ∉ path) : IsName (String.ofList piece) where
  filled same := filled (by simpa using congrArg String.toList same)
  notHere same := notHere (by simpa using congrArg String.toList same)
  notUp same := notUp (by simpa using congrArg String.toList same)
  unsplit inside := by
    rw [String.toList_ofList] at inside
    exact (mem_of_mem_splitOnChar member inside).2 rfl
  unbroken inside := by
    rw [String.toList_ofList] at inside
    exact unbroken (mem_of_mem_splitOnChar member inside).1

theorem is_name_of_step {path : String} (unbroken : '\x00' ∉ path.toList) {text : List Char}
    (member : .name text ∈ steps path) : IsName (String.ofList text) := by
  rw [steps, List.mem_append] at member
  rcases member with start | later
  · split at start
    · cases List.mem_singleton.mp start
    · cases start
  · obtain ⟨⟨piece, position⟩, kept, same⟩ := List.mem_map.mp later
    obtain ⟨listed, step⟩ := List.mem_filter.mp kept
    have filled : piece ≠ [] := by
      rintro rfl
      cases step
    unfold stepOfPiece at same
    split at same
    · cases same
    · rename_i notHere
      split at same
      · cases same
      · rename_i notUp
        cases same
        exact is_name_of_piece (List.fst_mem_of_mem_zipIdx listed) filled notHere notUp unbroken

theorem pieces_append (front last : List Char) :
    pieces (front ++ '/' :: last) = pieces front ++ pieces last := by
  simp only [pieces, splitOnChar_eq_splitOn, List.splitOn_append_cons_self]

theorem pieces_of_unsplit {piece : List Char} (unsplit : '/' ∉ piece) :
    pieces piece = [piece] := by
  rw [pieces, splitOnChar_eq_splitOn, List.splitOn_eq_singleton unsplit]

/-- Whatever stands before and after a piece, the piece itself has a position. -/
theorem at_position {all before after : List (List Char × Nat)} {listed : List (List Char)}
    {piece : List Char} {position : Nat} (counted : listed.zipIdx = all)
    (shape : all = before ++ (piece, position) :: after) :
    position = before.length ∧ listed[position]? = some piece := by
  have entry : listed.zipIdx[before.length]? = some (piece, position) := by
    rw [counted, shape]
    simp
  rw [List.getElem?_zipIdx] at entry
  obtain ⟨found, present, same⟩ := Option.map_eq_some_iff.mp entry
  simp only [Nat.zero_add, Prod.mk.injEq] at same
  obtain ⟨rfl, rfl⟩ := same
  exact ⟨rfl, present⟩

theorem is_rooted_iff (path : List Char) :
    isRooted path = true ↔ ∃ rest, rest ≠ [] ∧ pieces path = [] :: rest := by
  constructor
  · intro rooted
    cases path with
    | nil => cases rooted
    | cons char rest =>
        have slash : char = '/' := by simpa [isRooted] using rooted
        subst slash
        refine ⟨pieces rest, ?_, by simp [pieces, splitOnChar]⟩
        rw [pieces, splitOnChar_eq_splitOn]
        exact List.splitOn_ne_nil '/' rest
  · rintro ⟨rest, more, split⟩
    cases path with
    | nil =>
        simp only [pieces, splitOnChar, List.cons.injEq, true_and] at split
        exact absurd split.symm more
    | cons char path =>
        by_cases slash : char = '/'
        · simp [isRooted, slash]
        · simp only [pieces, splitOnChar, if_neg slash] at split
          split at split <;> simp at split

/-- The positions are counted from the beginning, so the last piece takes no part in them. -/
theorem step_pieces_append {last : List Char} (unsplit : '/' ∉ last) (filled : last ≠ [])
    (notHere : last ≠ ['.']) (front : List Char) :
    stepPieces (front ++ '/' :: last) =
      stepPieces (front ++ ['/']) ++ [(last, (pieces front).length)] := by
  have rooted : isRooted (front ++ '/' :: last) = isRooted (front ++ ['/']) := by
    cases front <;> rfl
  have kept : isStep (isRooted (front ++ ['/'])) (pieces front).length last = true := by
    rw [isStep, if_neg (by simpa using filled), if_neg notHere]
  have dropped : isStep (isRooted (front ++ ['/'])) (pieces front).length [] = false := rfl
  simp only [stepPieces, rooted, pieces_append, pieces_of_unsplit unsplit,
    pieces_of_unsplit List.not_mem_nil, List.zipIdx_append, List.filter_append,
    List.zipIdx_singleton, Nat.zero_add]
  simp [kept, dropped]

theorem steps_append {last : List Char} (unsplit : '/' ∉ last) (filled : last ≠ [])
    (notHere : last ≠ ['.']) (front : List Char) :
    steps (String.ofList (front ++ '/' :: last)) =
      steps (String.ofList (front ++ ['/'])) ++ [stepOfPiece last] := by
  have rooted : isRooted (front ++ '/' :: last) = isRooted (front ++ ['/']) := by
    cases front <;> rfl
  simp only [steps, String.toList_ofList, rooted, step_pieces_append unsplit filled notHere,
    List.map_append, List.append_assoc]
  rfl

/-- A slash at the end is not a step, except when it is the whole path. -/
theorem steps_slash {front : List Char} (filled : front ≠ []) :
    steps (String.ofList (front ++ ['/'])) = steps (String.ofList front) := by
  have rooted : isRooted (front ++ ['/']) = isRooted front := by
    cases front with
    | nil => exact absurd rfl filled
    | cons char rest => rfl
  have dropped : isStep (isRooted front) (pieces front).length [] = false := rfl
  simp only [steps, String.toList_ofList, stepPieces, rooted, pieces_append,
    pieces_of_unsplit List.not_mem_nil, List.zipIdx_append, List.filter_append,
    List.zipIdx_singleton, Nat.zero_add]
  simp [dropped]

/-- The path of an entry is a text of the directory, a slash and the name. -/
theorem join_cases {directory : String} (within : directory ≠ "") (name : String) :
    ∃ front, join directory name = String.ofList (front ++ '/' :: name.toList) ∧
      steps (String.ofList (front ++ ['/'])) = steps directory ∧
      ∀ char ∈ front, char ∈ directory.toList := by
  have listed : directory.isEmpty = false := by
    rw [← Bool.not_eq_true, String.isEmpty_iff]
    exact within
  unfold join
  rw [if_neg (by simp [listed])]
  by_cases slash : directory.toList.getLast? = some '/'
  · obtain ⟨front, ends⟩ := List.getLast?_eq_some_iff.mp slash
    have again : directory = String.ofList (front ++ ['/']) := by
      rw [← ends, String.ofList_toList]
    refine ⟨front, ?_, congrArg steps again.symm, ?_⟩
    · rw [if_pos slash]
      apply String.toList_inj.mp
      simp [ends]
    · intro char inside
      rw [ends]
      exact List.mem_append_left _ inside
  · have front : directory.toList ≠ [] := fun same => within (String.toList_inj.mp same)
    refine ⟨directory.toList, ?_, by rw [steps_slash front, String.ofList_toList],
      fun _ inside => inside⟩
    rw [if_neg slash]
    apply String.toList_inj.mp
    simp

theorem steps_join {directory name : String} (within : directory ≠ "") (named : IsName name) :
    steps (join directory name) = steps directory ++ [.name name.toList] := by
  obtain ⟨front, whole, same, _⟩ := join_cases within name
  rw [whole, steps_append named.unsplit named.listed named.notDot, same, named.step]

theorem last_piece_join {directory name : String} (within : directory ≠ "")
    (named : IsName name) :
    (pieces (join directory name).toList).getLast? = some name.toList := by
  obtain ⟨front, whole, _, _⟩ := join_cases within name
  rw [whole, String.toList_ofList, pieces_append, pieces_of_unsplit named.unsplit,
    List.getLast?_concat]

theorem join_unbroken {directory name : String} (within : directory ≠ "") (named : IsName name)
    (unbroken : '\x00' ∉ directory.toList) : '\x00' ∉ (join directory name).toList := by
  obtain ⟨front, whole, _, inside⟩ := join_cases within name
  rw [whole, String.toList_ofList, List.mem_append, List.mem_cons]
  rintro (early | slash | late)
  · exact unbroken (inside _ early)
  · cases slash
  · exact named.unbroken late

theorem join_ne_empty {directory name : String} (within : directory ≠ "") :
    join directory name ≠ "" := by
  obtain ⟨front, whole, _, _⟩ := join_cases within name
  intro nothing
  have listed := congrArg String.toList (whole.symm.trans nothing)
  simp at listed

/-- Whether a path is rooted shows in the pieces before any of its steps. -/
theorem is_rooted_take {path : List Char} {piece : List Char} {position : Nat}
    (present : (pieces path)[position]? = some piece)
    (step : isStep (isRooted path) position piece = true) (more : position + 1 < (pieces path).length)
    {shorter : List Char} (taken : pieces shorter = (pieces path).take (position + 1)) :
    isRooted shorter = isRooted path := by
  rw [Bool.eq_iff_iff, is_rooted_iff, is_rooted_iff, taken]
  cases split : pieces path with
  | nil => simp [split] at present
  | cons first rest =>
      rw [split] at present more
      simp only [List.take_succ_cons, List.cons.injEq, exists_eq_right_right', ne_eq]
      cases position with
      | zero =>
          have same : first = piece := by simpa using present
          have filled : piece ≠ [] := by
            intro empty
            simp [isStep, empty] at step
          simp [same, filled]
      | succ before =>
          have some : rest ≠ [] := by
            intro none
            simp [none] at more
          simp [some]

/-- The text up to a step that is not the last has the steps up to there. -/
theorem step_pieces_parent {path : List Char} {earlier : List (List Char × Nat)}
    {piece last : List Char} {position final : Nat}
    (found : stepPieces path = earlier ++ [(piece, position), (last, final)])
    {parent : List Char} (cut : parent = ['/'].intercalate ((pieces path).take (position + 1))) :
    stepPieces parent = earlier ++ [(piece, position)] ∧ isRooted parent = isRooted path := by
  obtain ⟨before, onward, whole, kept, tail⟩ := List.filter_eq_append_iff.mp found
  obtain ⟨gap, after, rfl, skipped, step, rest⟩ := List.filter_eq_cons_iff.mp tail
  have shape : (pieces path).zipIdx = (before ++ gap) ++ (piece, position) :: after := by
    simpa using whole
  obtain ⟨counted, present⟩ := at_position rfl shape
  have more : position + 1 < (pieces path).length := by
    have lengths := congrArg List.length shape
    have later : after ≠ [] := by
      rintro rfl
      cases rest
    have positive := List.length_pos_iff.mpr later
    simp only [List.length_zipIdx, List.length_append, List.length_cons] at lengths counted
    omega
  have taken : pieces parent = (pieces path).take (position + 1) := by
    rw [cut]
    simp only [pieces, splitOnChar_eq_splitOn]
    apply List.splitOn_intercalate
    · intro one member slash
      have among : one ∈ splitOnChar '/' path := by
        rw [splitOnChar_eq_splitOn]
        exact List.mem_of_mem_take member
      exact (mem_of_mem_splitOnChar among slash).2 rfl
    · intro nothing
      rw [← splitOnChar_eq_splitOn, ← pieces] at nothing
      have lengths := congrArg List.length nothing
      simp only [List.length_take, List.length_nil] at lengths
      omega
  have rooted := is_rooted_take present step more taken
  refine ⟨?_, rooted⟩
  -- The positions of the pieces that were taken are those they had in the whole path.
  have prior : ((pieces path).take (position + 1)).zipIdx =
      (before ++ gap) ++ [(piece, position)] := by
    have parted : (pieces path).zipIdx = ((before ++ gap) ++ [(piece, position)]) ++ after := by
      rw [shape, List.append_assoc, List.append_assoc]
      simp
    rw [← List.take_append_drop (position + 1) (pieces path), List.zipIdx_append] at parted
    refine (List.append_inj parted ?_).1
    simp only [List.length_zipIdx, List.length_take, List.length_append, List.length_singleton]
    simp only [List.length_append] at counted
    omega
  have unkept : gap.filter (fun entry => isStep (isRooted path) entry.2 entry.1) = [] := by
    rw [List.filter_eq_nil_iff]
    exact skipped
  rw [stepPieces, rooted, taken, prior]
  simp only [List.filter_append, kept, unkept, List.append_nil, List.append_cancel_left_eq]
  simp [step]

/-- A path that ends in a name is its parent with that name. -/
theorem steps_parent {path : String} {last : List Char}
    (ends : (pieces path.toList).getLast? = some last) (filled : last ≠ [])
    (notHere : last ≠ ['.']) :
    ∃ directory, parent? path = some directory ∧
      steps path = steps directory ++ [stepOfPiece last] := by
  obtain ⟨front, split⟩ := List.getLast?_eq_some_iff.mp ends
  have kept : isStep (isRooted path.toList) front.length last = true := by
    rw [isStep, if_neg (by simpa using filled), if_neg notHere]
  obtain ⟨earlier, found⟩ :
      ∃ earlier, stepPieces path.toList = earlier ++ [(last, front.length)] := by
    rw [stepPieces, split, List.zipIdx_append, List.filter_append, List.zipIdx_singleton]
    simp [kept]
  rcases List.eq_nil_or_concat earlier with rfl | ⟨before, ⟨piece, position⟩, rfl⟩
  · refine ⟨if isRooted path.toList then "/" else "", ?_, ?_⟩
    · simp only [parent?, found, List.nil_append, List.reverse_singleton]
    · simp only [steps, found]
      cases isRooted path.toList <;> rfl
  · have shape : stepPieces path.toList =
        before ++ [(piece, position), (last, front.length)] := by
      simpa using found
    obtain ⟨same, rooted⟩ := step_pieces_parent shape rfl
    refine ⟨String.ofList (['/'].intercalate ((pieces path.toList).take (position + 1))),
      by simp [parent?, shape], ?_⟩
    simp only [steps, String.toList_ofList, same, rooted, shape]
    simp

/-- The last step of a path that ends in a name is that name. -/
theorem file_name_of_steps {path name : String} {before : List Step}
    (ends : steps path = before ++ [.name name.toList]) : fileName? path = some name := by
  simp [fileName?, ends]

/-- The kind of a step, and the bytes of a name. -/
def Step.key : Step → Nat × Bytes
  | .root => (0, [])
  | .here => (1, [])
  | .up => (2, [])
  | .name text => (3, Utf8.encodeChars text)

def Step.Before (left right : Step) : Prop :=
  left.key.1 < right.key.1 ∨ left.key.1 = right.key.1 ∧ left.key.2 < right.key.2

/-- The order of paths: step by step, whatever their spelling. -/
def Precedes (left right : String) : Prop := List.Lex Step.Before (steps left) (steps right)

/-- Entries of one directory are in the order of their names. -/
theorem precedes_join {directory left right : String} (within : directory ≠ "")
    (first : IsName left) (second : IsName right) (less : left < right) :
    Precedes (join directory left) (join directory right) := by
  have before : Step.Before (.name left.toList) (.name right.toList) :=
    .inr ⟨rfl, Utf8.encode_lt less⟩
  rw [Precedes, steps_join within first, steps_join within second]
  exact List.Lex.append_left Step.Before (.rel before) (steps directory)

theorem same_iff (left right : String) : same left right = true ↔ steps left = steps right := by
  simp [same]

end FieldPost.Path
