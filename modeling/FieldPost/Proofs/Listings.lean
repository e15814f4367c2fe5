import FieldPost.Proofs.Files
import FieldPost.Proofs.Paths
import Mathlib.Data.List.Nodup

/-!
What a directory holds. In a sound tree no location is listed twice and every entry has a name;
the empty tree is sound, and what makes directories and writes files keeps a tree so. There the entries of a directory are its own files and
directories, each of them once, the path of an entry leads to it, and a path that leads to a file
leads through its parent. None of this depends on the order in which the tree lists its nodes.
Nothing is said of trees that no operation makes.
-/

namespace FieldPost

/-- In entries with distinct keys a key has the value it stands with. -/
theorem lookup_eq_some_iff_mem {Key Value : Type} [BEq Key] [LawfulBEq Key]
    {entries : List (Key × Value)} (distinct : (entries.map (·.1)).Nodup) (key : Key)
    (value : Value) : entries.lookup key = some value ↔ (key, value) ∈ entries := by
  induction entries with
  | nil => simp
  | cons entry rest induction =>
      rcases entry with ⟨first, held⟩
      obtain ⟨fresh, distinct⟩ := List.nodup_cons.mp distinct
      by_cases same : key = first
      · subst same
        have absent : (key, value) ∉ rest := fun member =>
          fresh (List.mem_map.mpr ⟨_, member, rfl⟩)
        simp [absent, eq_comm]
      · have different : (key == first) = false := by simpa using same
        rw [List.lookup_cons, different, induction distinct]
        simp [same]

namespace FileTree

open FieldPost.Answers FieldPost.Text
open FieldPost.Path (IsName)

def IsPlace (location : Location) : Prop := ∀ name ∈ location, IsName name

/-- A tree as its operations leave it. -/
structure Sound (tree : FileTree) : Prop where
  distinct : (tree.nodes.map (·.1)).Nodup
  named : ∀ entry ∈ tree.nodes, IsPlace entry.1
  standing : IsPlace tree.current

theorem follow_place {location : Location} (place : IsPlace location) {step : Path.Step}
    (named : ∀ text, step = .name text → IsName (String.ofList text)) :
    IsPlace (follow location step) := by
  cases step with
  | root => exact fun name member => nomatch member
  | here => exact place
  | up => exact fun name member => place name (List.dropLast_subset location member)
  | name text =>
      intro name member
      rcases List.mem_append.mp member with before | last
      · exact place name before
      · rw [List.mem_singleton.mp last]
        exact named text rfl

theorem walk_place {tree : FileTree} {location reached : Location} {steps : List Path.Step}
    (place : IsPlace location)
    (named : ∀ text, .name text ∈ steps → IsName (String.ofList text))
    (walked : tree.walk location steps = .ok reached) : IsPlace reached := by
  induction steps generalizing location with
  | nil =>
      cases walked
      exact place
  | cons step rest induction =>
      rw [walk] at walked
      split at walked
      · cases walked
      · exact induction (follow_place place fun text same => named text (by simp [same]))
          (fun text member => named text (List.mem_cons_of_mem step member)) walked
      · cases walked

theorem locate_eq_ok_iff (tree : FileTree) (path : String) (location : Location) :
    tree.locate path = .ok location ↔
      path ≠ "" ∧ '\x00' ∉ path.toList ∧
        tree.walk tree.current (Path.steps path) = .ok location := by
  unfold locate
  by_cases empty : path = ""
  · simp [empty]
  · by_cases nul : '\x00' ∈ path.toList
    · simp [empty, nul]
    · simp [empty, nul]

namespace Sound

variable {tree : FileTree}

theorem empty : Sound {} where
  distinct := List.nodup_nil
  named := fun _ member => nomatch member
  standing := fun _ member => nomatch member

theorem place_of_locate (sound : tree.Sound) {path : String} {location : Location}
    (located : tree.locate path = .ok location) : IsPlace location := by
  obtain ⟨_, unbroken, walked⟩ := (locate_eq_ok_iff tree path location).mp located
  exact walk_place sound.standing (fun _ member => Path.is_name_of_step unbroken member) walked

theorem put (sound : tree.Sound) {location : Location} (place : IsPlace location) (node : Node) :
    (tree.put location node).Sound where
  distinct := by
    have kept : ((tree.nodes.filter (·.1 != location)).map (·.1)).Nodup :=
      sound.distinct.sublist (List.filter_sublist.map _)
    rw [FileTree.put, List.map_append, List.nodup_append]
    refine ⟨kept, List.nodup_singleton _, ?_⟩
    rintro key member other last rfl
    obtain ⟨entry, there, rfl⟩ := List.mem_map.mp member
    have different := (List.mem_filter.mp there).2
    simp only [List.map_cons, List.map_nil, List.mem_singleton] at last
    simp [last] at different
  named entry member := by
    rcases List.mem_append.mp member with before | last
    · exact sound.named entry (List.mem_filter.mp before).1
    · rw [List.mem_singleton.mp last]
      exact place
  standing := sound.standing

theorem make_along (sound : tree.Sound) {location : Location} (place : IsPlace location)
    {steps : List Path.Step} (named : ∀ text, .name text ∈ steps → IsName (String.ofList text))
    {made : FileTree} (built : tree.makeAlong location steps = .ok made) : made.Sound := by
  induction steps generalizing tree location with
  | nil =>
      cases built
      exact sound
  | cons step rest induction =>
      have next : IsPlace (follow location step) :=
        follow_place place fun text same => named text (by simp [same])
      have later := fun text member => named text (List.mem_cons_of_mem step member)
      rw [makeAlong] at built
      split at built
      · exact induction sound next later built
      · cases built
      · exact induction (sound.put next _) next later built

theorem make_directories (sound : tree.Sound) {path : String} {made : FileTree}
    (built : tree.makeDirectories path = .ok made) : made.Sound := by
  unfold makeDirectories at built
  split at built
  · cases built
  · rename_i unbroken
    exact sound.make_along sound.standing
      (fun _ member => Path.is_name_of_step (by simpa using unbroken) member) built

theorem write_file (sound : tree.Sound) {path : String} {content : Bytes} {written : FileTree}
    (wrote : tree.writeFile path content = .ok written) : written.Sound := by
  unfold writeFile at wrote
  obtain ⟨location, located, rest⟩ := (bind_eq_ok_iff _ _ _).mp wrote
  split at rest
  all_goals first
    | cases rest; exact sound.put (sound.place_of_locate located) _
    | cases rest

theorem with_directory (sound : tree.Sound) (path : String) : (tree.withDirectory path).Sound := by
  unfold withDirectory
  cases built : tree.makeDirectories path with
  | error problem => exact sound
  | ok made => exact sound.make_directories built

theorem with_file (sound : tree.Sound) (path : String) (content : Bytes) :
    (tree.withFile path content).Sound := by
  have roomy := sound.with_directory ((Path.parent? path).getD "")
  unfold withFile
  cases wrote : (tree.withDirectory ((Path.parent? path).getD "")).writeFile path content with
  | error problem =>
      simp only [wrote]
      exact roomy
  | ok written =>
      simp only [wrote]
      exact roomy.write_file wrote

end Sound

theorem walk_append (tree : FileTree) (location : Location) (first second : List Path.Step) :
    tree.walk location (first ++ second) =
      tree.walk location first >>= fun reached => tree.walk reached second := by
  induction first generalizing location with
  | nil => rfl
  | cons step rest induction =>
      rw [List.cons_append, walk, walk]
      split
      · rfl
      · exact induction _
      · rfl

theorem walk_step_eq_ok_iff (tree : FileTree) (location reached : Location) (step : Path.Step) :
    tree.walk location [step] = .ok reached ↔
      (∃ writable, tree.find? location = some (.directory writable)) ∧
        reached = follow location step := by
  rw [walk]
  split
  · rename_i missing
    simp [missing]
  · rename_i writable found
    simp [walk, found, eq_comm]
  · rename_i node other found
    simp only [found, reduceCtorEq, Option.some.injEq, false_iff, not_and]
    rintro ⟨writable, rfl⟩
    exact absurd rfl (other writable)

theorem stat_eq_ok_iff (tree : FileTree) (path : String) (location : Location) (node : Node) :
    tree.stat path = .ok (location, node) ↔
      tree.locate path = .ok location ∧ tree.find? location = some node ∧
        ((∃ writable, node = .directory writable) ∨ asksDirectory path = false) := by
  unfold stat
  rw [bind_eq_ok_iff]
  constructor
  · rintro ⟨reached, located, checked⟩
    cases found : tree.find? reached with
    | none => simp [found] at checked
    | some there =>
        rw [found] at checked
        -- Only a directory may be asked for as one.
        cases asks : asksDirectory path <;> cases there <;> simp [asks] at checked <;>
          obtain ⟨rfl, rfl⟩ := checked <;> simp [located, found]
  · rintro ⟨located, found, plain⟩
    refine ⟨location, located, ?_⟩
    rw [found]
    rcases plain with ⟨writable, rfl⟩ | asks
    · rfl
    · cases node <;> simp [asks]

theorem read_file_eq_ok_iff (tree : FileTree) (path : String) (content : Bytes) :
    tree.readFile path = .ok content ↔
      ∃ location, tree.stat path = .ok (location, .file content) := by
  unfold readFile
  rw [bind_eq_ok_iff]
  constructor
  · rintro ⟨⟨location, node⟩, named, read⟩
    cases node <;> cases read
    exact ⟨location, named⟩
  · rintro ⟨location, named⟩
    exact ⟨_, named, rfl⟩

theorem is_file_iff (tree : FileTree) (path : String) :
    tree.isFile path = true ↔
      ∃ location node, tree.stat path = .ok (location, node) ∧
        ∀ writable, node ≠ .directory writable := by
  unfold isFile
  cases tree.stat path with
  | error problem => simp
  | ok named =>
      rcases named with ⟨location, node⟩
      cases node <;> simp

theorem read_directory_eq_ok_iff (tree : FileTree) (path : String) (names : List String) :
    tree.readDirectory path = .ok names ↔
      ∃ home writable, tree.stat path = .ok (home, .directory writable) ∧
        names = tree.entriesAt home := by
  unfold readDirectory
  rw [bind_eq_ok_iff]
  constructor
  · rintro ⟨⟨home, node⟩, named, listed⟩
    cases node <;> cases listed
    exact ⟨home, _, named, rfl⟩
  · rintro ⟨home, writable, named, rfl⟩
    exact ⟨_, named, rfl⟩

/-- The path of an entry leads into the directory and on to the entry. -/
theorem stat_join {tree : FileTree} {directory name : String} {home : Location} {writable : Bool}
    (opened : tree.stat directory = .ok (home, .directory writable)) (named : IsName name)
    (location : Location) (node : Node) :
    tree.stat (Path.join directory name) = .ok (location, node) ↔
      location = home ++ [name] ∧ tree.find? (home ++ [name]) = some node := by
  obtain ⟨located, found, _⟩ := (stat_eq_ok_iff _ _ _ _).mp opened
  obtain ⟨within, unbroken, walked⟩ := (locate_eq_ok_iff _ _ _).mp located
  have asks : asksDirectory (Path.join directory name) = false := by
    have notUp : name.toList ≠ ['.', '.'] := fun same => named.notUp (String.toList_inj.mp same)
    simp [asksDirectory, Path.last_piece_join within named, named.listed, named.notDot, notUp]
  rw [stat_eq_ok_iff, locate_eq_ok_iff, Path.steps_join within named, walk_append, walked]
  have reached : tree.walk home [.name name.toList] = .ok (home ++ [name]) :=
    (walk_step_eq_ok_iff _ _ _ _).mpr ⟨⟨writable, found⟩, by rw [follow, String.ofList_toList]⟩
  constructor
  · rintro ⟨⟨_, _, onward⟩, there, _⟩
    have same : location = home ++ [name] := Except.ok.inj (onward.symm.trans reached)
    subst same
    exact ⟨rfl, there⟩
  · rintro ⟨rfl, there⟩
    exact ⟨⟨Path.join_ne_empty within, Path.join_unbroken within named unbroken, reached⟩, there,
      .inr asks⟩

/-- A path that leads to a file leads through its parent and on to the name of the file. -/
theorem stat_parent {tree : FileTree} {path : String} {location : Location} {node : Node}
    (named : tree.stat path = .ok (location, node)) (plain : ∀ writable, node ≠ .directory writable) :
    ∃ directory home own, Path.parent? path = some directory ∧ IsName own ∧
      Path.steps path = Path.steps directory ++ [.name own.toList] ∧
      tree.walk tree.current (Path.steps directory) = .ok home ∧ location = home ++ [own] := by
  obtain ⟨located, _, asks⟩ := (stat_eq_ok_iff _ _ _ _).mp named
  obtain ⟨_, unbroken, walked⟩ := (locate_eq_ok_iff _ _ _).mp located
  replace asks : asksDirectory path = false := asks.resolve_left fun ⟨writable, same⟩ =>
    plain writable same
  unfold asksDirectory at asks
  cases ends : (Path.pieces path.toList).getLast? with
  | none =>
      rw [List.getLast?_eq_none_iff, Path.pieces, splitOnChar_eq_splitOn] at ends
      exact absurd ends (List.splitOn_ne_nil _ _)
  | some last =>
      simp only [ends, Bool.or_eq_false_iff, beq_eq_false_iff_ne, ne_eq,
        List.isEmpty_eq_false_iff] at asks
      obtain ⟨⟨filled, notHere⟩, notUp⟩ := asks
      obtain ⟨directory, parent, steps⟩ := Path.steps_parent ends filled notHere
      have name := Path.is_name_of_piece (List.mem_of_getLast? ends) filled notHere notUp unbroken
      have step := name.step
      rw [String.toList_ofList] at step
      rw [steps, walk_append] at walked
      obtain ⟨home, through, onward⟩ := (bind_eq_ok_iff _ _ _).mp walked
      refine ⟨directory, home, String.ofList last, parent, name, ?_, through, ?_⟩
      · rw [steps, step, String.toList_ofList]
      · rw [((walk_step_eq_ok_iff _ _ _ _).mp onward).2, step, follow]

namespace Sound

variable {tree : FileTree}

theorem find_eq_some_iff (sound : tree.Sound) (home : Location) (name : String) (node : Node) :
    tree.find? (home ++ [name]) = some node ↔ (home ++ [name], node) ∈ tree.nodes := by
  have listed : (home ++ [name]).isEmpty = false := by simp
  rw [find?, listed, if_neg Bool.false_ne_true, lookup_eq_some_iff_mem sound.distinct]

/-- The entries of a directory are what is found one name below it. -/
theorem mem_entries_iff (sound : tree.Sound) (home : Location) (name : String) :
    name ∈ tree.entriesAt home ↔ ∃ node, tree.find? (home ++ [name]) = some node := by
  simp only [entriesAt, List.mem_filterMap, sound.find_eq_some_iff]
  constructor
  · rintro ⟨⟨location, node⟩, member, same⟩
    split at same
    · rename_i within
      obtain ⟨front, ends⟩ := List.getLast?_eq_some_iff.mp same
      simp only at ends within
      rw [ends, List.dropLast_concat] at within
      rw [ends, within] at member
      exact ⟨node, member⟩
    · cases same
  · rintro ⟨node, member⟩
    exact ⟨_, member, by simp⟩

theorem is_name_of_entry (sound : tree.Sound) {home : Location} {name : String}
    (member : name ∈ tree.entriesAt home) : IsName name := by
  obtain ⟨node, found⟩ := (sound.mem_entries_iff home name).mp member
  have listed := (sound.find_eq_some_iff home name node).mp found
  exact sound.named _ listed name (by simp)

theorem nodup_entries (sound : tree.Sound) (home : Location) : (tree.entriesAt home).Nodup := by
  have through : tree.entriesAt home = (tree.nodes.map (·.1)).filterMap fun location =>
      if location.dropLast = home then location.getLast? else none := by
    rw [entriesAt, List.filterMap_map]
    rfl
  rw [through]
  refine sound.distinct.filterMap ?_
  intro first second name left right
  simp only [Option.mem_def, Option.ite_none_right_eq_some] at left right
  obtain ⟨⟨before, left⟩, ⟨again, right⟩⟩ := And.intro left right
  obtain ⟨front, rfl⟩ := List.getLast?_eq_some_iff.mp left
  obtain ⟨other, rfl⟩ := List.getLast?_eq_some_iff.mp right
  rw [List.dropLast_concat] at before again
  rw [before, again]

end Sound

/-- The same nodes, listed in another order. -/
structure Relisted (first second : FileTree) : Prop where
  current : second.current = first.current
  nodes : second.nodes.Perm first.nodes

namespace Relisted

variable {first second : FileTree}

theorem find (relisted : Relisted first second) (sound : first.Sound) (location : Location) :
    second.find? location = first.find? location := by
  have distinct : (second.nodes.map (·.1)).Nodup :=
    (relisted.nodes.map (·.1)).nodup_iff.mpr sound.distinct
  unfold find?
  split
  · rfl
  · apply Option.ext
    intro node
    rw [lookup_eq_some_iff_mem distinct, lookup_eq_some_iff_mem sound.distinct,
      relisted.nodes.mem_iff]

theorem walk (relisted : Relisted first second) (sound : first.Sound) (location : Location)
    (steps : List Path.Step) : second.walk location steps = first.walk location steps := by
  induction steps generalizing location with
  | nil => rfl
  | cons step rest induction =>
      rw [FileTree.walk, FileTree.walk, relisted.find sound]
      split
      · rfl
      · exact induction _
      · rfl

theorem stat (relisted : Relisted first second) (sound : first.Sound) (path : String) :
    second.stat path = first.stat path := by
  simp only [FileTree.stat, locate, relisted.current, relisted.walk sound, relisted.find sound]

theorem read_file (relisted : Relisted first second) (sound : first.Sound) (path : String) :
    second.readFile path = first.readFile path := by
  rw [readFile, readFile, relisted.stat sound]

theorem is_file (relisted : Relisted first second) (sound : first.Sound) (path : String) :
    second.isFile path = first.isFile path := by
  rw [isFile, isFile, relisted.stat sound]

theorem entries (relisted : Relisted first second) (location : Location) :
    (second.entriesAt location).Perm (first.entriesAt location) := relisted.nodes.filterMap _

/-- A directory is opened in both or fails alike in both, and the names are the same ones. -/
theorem read_directory (relisted : Relisted first second) (sound : first.Sound) (path : String) :
    (∃ problem, second.readDirectory path = .error problem ∧
        first.readDirectory path = .error problem) ∨
      ∃ listed names, second.readDirectory path = .ok listed ∧
        first.readDirectory path = .ok names ∧ listed.Perm names := by
  unfold readDirectory
  rw [relisted.stat sound]
  cases first.stat path with
  | error problem => exact .inl ⟨problem, rfl, rfl⟩
  | ok named =>
      rcases named with ⟨location, node⟩
      cases node with
      | directory writable => exact .inr ⟨_, _, rfl, rfl, relisted.entries location⟩
      | file content => exact .inl ⟨.notDirectory, rfl, rfl⟩
      | lockedFile => exact .inl ⟨.notDirectory, rfl, rfl⟩

end Relisted

end FileTree

end FieldPost
