import FieldPost.FileTree
import FieldPost.Proofs.Answers
import FieldPost.Proofs.Rows

/-!
Files that go. Removing a directory takes away what lies in or below it and adds or changes
nothing, so whatever can still be read afterwards could be read before and is the same. Nothing
is said of files that are written.
-/

namespace FieldPost.FileTree

open FieldPost.Answers FieldPost.Text

theorem find_prune (tree : FileTree) (pruned location : Location) :
    (tree.prune pruned).find? location =
      if location ≠ [] ∧ pruned <+: location then none else tree.find? location := by
  have filtered := lookup_filter_key tree.nodes (fun key => !pruned.isPrefixOf key) location
  by_cases root : location = []
  · subst root
    simp [find?]
  · have listed : location.isEmpty = false := by simpa using root
    unfold find? prune
    simp only [listed, Bool.false_eq_true, if_false, filtered, Bool.not_eq_true',
      ← Bool.not_eq_true, List.isPrefixOf_iff_prefix]
    by_cases inside : pruned <+: location <;> simp [inside, root]

theorem find_prune_outside (tree : FileTree) {pruned location : Location}
    (outside : ¬ pruned <+: location) :
    (tree.prune pruned).find? location = tree.find? location := by
  rw [find_prune, if_neg (fun inside => outside inside.2)]

/-- Nothing is in the later tree that was not in the earlier one. -/
structure Shrinks (before after : FileTree) : Prop where
  current : after.current = before.current
  find : ∀ location node, after.find? location = some node → before.find? location = some node

namespace Shrinks

variable {first second third : FileTree}

theorem refl (tree : FileTree) : Shrinks tree tree := ⟨rfl, fun _ _ found => found⟩

theorem trans (early : Shrinks first second) (late : Shrinks second third) :
    Shrinks first third where
  current := late.current.trans early.current
  find location node found := early.find location node (late.find location node found)

theorem walk (shrinks : Shrinks first second) {location reached : Location}
    {steps : List Path.Step} (walked : second.walk location steps = .ok reached) :
    first.walk location steps = .ok reached := by
  induction steps generalizing location with
  | nil => exact walked
  | cons step rest induction =>
      unfold FileTree.walk at walked ⊢
      cases found : second.find? location with
      | none => simp [found] at walked
      | some node =>
          rw [shrinks.find location node found]
          rw [found] at walked
          cases node with
          | directory writable => exact induction walked
          | file content => cases walked
          | lockedFile => cases walked

theorem locate (shrinks : Shrinks first second) {path : String} {location : Location}
    (located : second.locate path = .ok location) : first.locate path = .ok location := by
  unfold FileTree.locate at located ⊢
  rw [shrinks.current] at located
  by_cases empty : path.isEmpty = true
  · rw [if_pos empty] at located
    cases located
  · rw [if_neg empty] at located ⊢
    by_cases nul : path.toList.contains '\x00' = true
    · rw [if_pos nul] at located
      cases located
    · rw [if_neg nul] at located ⊢
      exact shrinks.walk located

theorem stat (shrinks : Shrinks first second) {path : String} {location : Location}
    {node : Node} (named : second.stat path = .ok (location, node)) :
    first.stat path = .ok (location, node) := by
  unfold FileTree.stat at named ⊢
  rcases (bind_eq_ok_iff _ _ _).mp named with ⟨reached, located, checked⟩
  refine (bind_eq_ok_iff _ _ _).mpr ⟨reached, shrinks.locate located, ?_⟩
  cases found : second.find? reached with
  | none => simp [found] at checked
  | some there =>
      rw [shrinks.find reached there found]
      rwa [found] at checked

theorem read_file (shrinks : Shrinks first second) {path : String} {content : Bytes}
    (read : second.readFile path = .ok content) : first.readFile path = .ok content := by
  unfold FileTree.readFile at read ⊢
  rcases (bind_eq_ok_iff _ _ _).mp read with ⟨named, known, taken⟩
  exact (bind_eq_ok_iff _ _ _).mpr ⟨named, shrinks.stat known, taken⟩

theorem read_text (shrinks : Shrinks first second) {path text : String}
    (read : second.readText path = .ok text) : first.readText path = .ok text := by
  unfold FileTree.readText at read ⊢
  rcases (bind_eq_ok_iff _ _ _).mp read with ⟨content, known, decoded⟩
  exact (bind_eq_ok_iff _ _ _).mpr ⟨content, shrinks.read_file known, decoded⟩

end Shrinks

theorem prune_shrinks (tree : FileTree) (pruned : Location) : Shrinks tree (tree.prune pruned) where
  current := rfl
  find location node found := by
    rw [find_prune] at found
    split at found
    · cases found
    · exact found

/-- Either the location of a directory is pruned or nothing happens. -/
theorem remove_directory_cases (tree : FileTree) (path : String) :
    tree.removeDirectory path = tree ∨
      ∃ location writable, tree.stat path = .ok (location, .directory writable) ∧
        tree.removeDirectory path = tree.prune location := by
  unfold removeDirectory
  split
  · rename_i location writable named
    exact .inr ⟨location, writable, named, rfl⟩
  · exact .inl rfl

theorem remove_directory_shrinks (tree : FileTree) (path : String) :
    Shrinks tree (tree.removeDirectory path) := by
  rcases remove_directory_cases tree path with same | ⟨location, _, _, pruned⟩
  · rw [same]
    exact .refl tree
  · rw [pruned]
    exact prune_shrinks tree location

end FieldPost.FileTree
