import FieldPost.Proofs.Exchanges
import FieldPost.Proofs.Listings

/-!
The body of a submission. The payload comes first, under its own field, and after it every other
plain file of its directory that is not hidden, each of them once and in the order of their
paths. How the path of the payload is spelt and in which order the directory is listed makes no
difference. Nothing is said of how the parts are written.
-/

namespace FieldPost.Upload.Server

open FieldPost.Answers FieldPost.Http FieldPost.Text
open FieldPost.Path (IsName)

/-- A plain file beside a payload called `own`, not hidden, as the part that it becomes. -/
def Beside (files : FileTree) (home : Location) (own : String) (part : Part) : Prop :=
  ∃ name content, name ≠ own ∧ name.toList.head? ≠ some '.' ∧
    files.find? (home ++ [name]) = some (.file content) ∧
    part = ⟨name, name, MediaType.ofFileName name, content⟩

/-- Where a payload lies: in a directory that can be opened, under a name. -/
structure Lies (files : FileTree) (path directory : String) (home : Location) (own : String) :
    Prop where
  parent : Path.parent? path = some directory
  named : IsName own
  steps : Path.steps path = Path.steps directory ++ [.name own.toList]
  opened : ∃ writable, files.stat directory = .ok (home, .directory writable)

section Chosen

variable {files : FileTree} {path directory own : String} {home : Location}

theorem Lies.within (lies : Lies files path directory home own) : directory ≠ "" := by
  rintro rfl
  obtain ⟨_, opened⟩ := lies.opened
  cases opened

theorem Lies.same_iff (lies : Lies files path directory home own) {name : String}
    (named : IsName name) : Path.same (Path.join directory name) path = true ↔ name = own := by
  rw [Path.same_iff, Path.steps_join lies.within named, lies.steps]
  simp [String.toList_inj]

theorem is_attachment_iff (lies : Lies files path directory home own) {name : String}
    (named : IsName name) :
    isAttachment files path directory name = true ↔
      name ≠ own ∧ name.toList.head? ≠ some '.' ∧
        ∃ node, files.find? (home ++ [name]) = some node ∧ ∀ writable, node ≠ .directory writable := by
  obtain ⟨_, opened⟩ := lies.opened
  have file : files.isFile (Path.join directory name) = true ↔
      ∃ node, files.find? (home ++ [name]) = some node ∧ ∀ writable, node ≠ .directory writable := by
    simp [FileTree.is_file_iff, FileTree.stat_join opened named, and_assoc]
  simp only [isAttachment, Bool.and_eq_true, Bool.not_eq_true', ← Bool.not_eq_true, file,
    lies.same_iff named, bne_iff_ne, ne_eq, and_assoc]

theorem attachment_part_eq_ok_iff (lies : Lies files path directory home own) {name : String}
    (named : IsName name) (part : Part) :
    attachmentPart files directory name = .ok part ↔
      ∃ content, files.find? (home ++ [name]) = some (.file content) ∧
        part = ⟨name, name, MediaType.ofFileName name, content⟩ := by
  obtain ⟨_, opened⟩ := lies.opened
  simp only [attachmentPart, map_eq_ok_iff, read_file_eq_ok_iff, FileTree.read_file_eq_ok_iff,
    FileTree.stat_join opened named, exists_eq_left, eq_comm (a := part)]

theorem attachment_names_sorted (files : FileTree) (path directory : String)
    (names : List String) : (attachmentNames files path directory names).Pairwise (· ≤ ·) := by
  have sorted : (attachmentNames files path directory names).Pairwise
      fun left right => decide (left ≤ right) = true :=
    List.pairwise_mergeSort
      (fun first second third before after => by
        simp only [decide_eq_true_eq] at before after ⊢
        exact String.le_trans before after)
      (fun first second => by simpa using String.le_total first second) _
  simpa using sorted

/-- The names do not depend on the order in which they were listed. -/
theorem attachment_names_perm (files : FileTree) (path directory : String)
    {names listed : List String} (perm : listed.Perm names) :
    attachmentNames files path directory listed = attachmentNames files path directory names := by
  have same : (attachmentNames files path directory listed).Perm
      (attachmentNames files path directory names) :=
    (List.mergeSort_perm _ _).trans ((perm.filter _).trans (List.mergeSort_perm _ _).symm)
  exact same.eq_of_pairwise (fun _ _ _ _ before after => String.le_antisymm before after)
    (attachment_names_sorted files path directory listed)
    (attachment_names_sorted files path directory names)

theorem attachment_names_ascend (files : FileTree) (path directory : String)
    {names : List String} (distinct : names.Nodup) :
    (attachmentNames files path directory names).Pairwise (· < ·) := by
  have nodup : (attachmentNames files path directory names).Nodup :=
    (List.mergeSort_perm _ _).nodup_iff.mpr (distinct.filter _)
  exact (attachment_names_sorted files path directory names).imp₂
    (fun _ _ before different => String.not_le.mp fun after =>
      different (String.le_antisymm before after)) nodup

theorem mem_attachment_names_iff (files : FileTree) (path directory : String)
    (names : List String) (name : String) :
    name ∈ attachmentNames files path directory names ↔
      name ∈ names ∧ isAttachment files path directory name = true := by
  rw [attachmentNames, List.mem_mergeSort, List.mem_filter]

end Chosen

theorem file_name_part {files : FileTree} {directory name : String} {part : Part}
    (made : attachmentPart files directory name = .ok part) : part.fileName = name := by
  obtain ⟨content, _, rfl⟩ := (map_eq_ok_iff _ _ _).mp made
  rfl

theorem file_names_of_parts {files : FileTree} {directory : String} {names : List String}
    {attachments : List Part}
    (made : names.mapM (attachmentPart files directory) = .ok attachments) :
    attachments.map Part.fileName = names := by
  have each := (mapM_eq_ok_iff _ _ _).mp made
  clear made
  induction each with
  | nil => rfl
  | cons first _ induction => rw [List.map_cons, file_name_part first, induction]

/-- The order in which nodes are listed is not seen in the parts, nor in what stops them. -/
theorem parts_of_relisted {files other : FileTree} (sound : files.Sound)
    (relisted : FileTree.Relisted files other) (filled : Instance) :
    parts other filled = parts files filled := by
  have file (path : String) : readFile other path = readFile files path := by
    rw [readFile, readFile, relisted.read_file sound]
  have part (directory : String) : attachmentPart other directory = attachmentPart files directory := by
    funext name
    rw [attachmentPart, attachmentPart, file]
  have chosen (directory : String) :
      isAttachment other filled.path directory = isAttachment files filled.path directory := by
    funext name
    simp only [isAttachment, relisted.is_file sound]
  have names (directory : String) (listed : List String) :
      attachmentNames other filled.path directory listed =
        attachmentNames files filled.path directory listed := by
    rw [attachmentNames, attachmentNames, chosen]
  unfold parts
  rw [file]
  cases readFile files filled.path with
  | error problem => rfl
  | ok payload =>
      cases filled.directory? with
      | none => rfl
      | some directory =>
          simp only [readDirectory, part, names]
          rcases relisted.read_directory sound directory with
            ⟨problem, failed, unread⟩ | ⟨listed, own, opened, read, perm⟩
          · rw [failed, unread]
          · rw [opened, read]
            simp only [bind, Except.bind, attachment_names_perm files filled.path directory perm]

/-- Every file that goes is there once and in its place, and nothing else is. -/
theorem attachments_of_parts {files : FileTree} (sound : files.Sound) {path directory own : String}
    {home : Location} (lies : Lies files path directory home own) {attachments : List Part}
    (made : (attachmentNames files path directory (files.entriesAt home)).mapM
      (attachmentPart files directory) = .ok attachments) :
    (∀ part, part ∈ attachments ↔ Beside files home own part) ∧
      (∀ name, name ≠ own → name.toList.head? ≠ some '.' →
        files.find? (home ++ [name]) ≠ some .lockedFile) ∧
      attachments.Pairwise fun left right =>
        Path.Precedes (Path.join directory left.fileName) (Path.join directory right.fileName) := by
  have names := file_names_of_parts made
  have chosen (name : String) (node : Node) (plain : ∀ writable, node ≠ .directory writable)
      (other : name ≠ own) (visible : name.toList.head? ≠ some '.')
      (found : files.find? (home ++ [name]) = some node) :
      IsName name ∧ name ∈ attachmentNames files path directory (files.entriesAt home) := by
    have entry := (sound.mem_entries_iff home name).mpr ⟨node, found⟩
    have named := sound.is_name_of_entry entry
    exact ⟨named, (mem_attachment_names_iff _ _ _ _ _).mpr
      ⟨entry, (is_attachment_iff lies named).mpr ⟨other, visible, node, found, plain⟩⟩⟩
  refine ⟨?_, ?_, ?_⟩
  · intro part
    rw [mem_answers_iff made]
    constructor
    · rintro ⟨name, member, answered⟩
      obtain ⟨entry, attached⟩ := (mem_attachment_names_iff _ _ _ _ _).mp member
      have named := sound.is_name_of_entry entry
      obtain ⟨other, visible, _⟩ := (is_attachment_iff lies named).mp attached
      obtain ⟨content, found, same⟩ := (attachment_part_eq_ok_iff lies named part).mp answered
      exact ⟨name, content, other, visible, found, same⟩
    · rintro ⟨name, content, other, visible, found, same⟩
      obtain ⟨named, member⟩ := chosen name (.file content) (by simp) other visible found
      exact ⟨name, member, (attachment_part_eq_ok_iff lies named part).mpr ⟨content, found, same⟩⟩
  · intro name other visible locked
    obtain ⟨named, member⟩ := chosen name .lockedFile (by simp) other visible locked
    obtain ⟨part, answered⟩ := answer_of_mem made member
    obtain ⟨content, found, _⟩ := (attachment_part_eq_ok_iff lies named part).mp answered
    rw [locked] at found
    cases found
  · have ascending := attachment_names_ascend files path directory (sound.nodup_entries home)
    rw [← names, List.pairwise_map] at ascending
    refine ascending.imp_of_mem ?_
    intro left right before after less
    have named {part : Part} (member : part ∈ attachments) : IsName part.fileName := by
      have among : part.fileName ∈ attachments.map Part.fileName := List.mem_map_of_mem member
      rw [names, mem_attachment_names_iff] at among
      exact sound.is_name_of_entry among.1
    exact Path.precedes_join lies.within (named before) (named after) less

/-- The body of a submission is the payload and then the other plain, visible files of its
directory: all of them, each once, in the order of their paths. Nothing else that the directory
or the spelling of a path could be plays a part. -/
theorem body_of_directory {files : FileTree} (sound : files.Sound) {filled : Instance}
    {body : List Part} (built : parts files filled = .ok body) :
    ∃ directory home own payload attachments,
      filled.directory? = some directory ∧
      (∃ writable, files.stat directory = .ok (home, .directory writable)) ∧
      files.stat filled.path = .ok (home ++ [own], .file payload) ∧
      body = ⟨"xml_submission_file", own, "text/xml", payload⟩ :: attachments ∧
      (∀ part, part ∈ attachments ↔ Beside files home own part) ∧
      (∀ name, name ≠ own → name.toList.head? ≠ some '.' →
        files.find? (home ++ [name]) ≠ some .lockedFile) ∧
      (attachments.Pairwise fun left right =>
        Path.Precedes (Path.join directory left.fileName) (Path.join directory right.fileName)) ∧
      (attachments.map Part.fileName).Nodup ∧
      ∀ other, FileTree.Relisted files other → parts other filled = .ok body := by
  rcases (bind_eq_ok_iff _ _ _).mp built with ⟨payload, read, rest⟩
  rw [read_file_eq_ok_iff, FileTree.read_file_eq_ok_iff] at read
  obtain ⟨location, stated⟩ := read
  obtain ⟨directory, home, own, parent, named, steps, walked, rfl⟩ :=
    FileTree.stat_parent stated (by simp)
  have directed : filled.directory? = some directory := parent
  simp only [directed] at rest
  rcases (bind_eq_ok_iff _ _ _).mp rest with ⟨names, listed, remaining⟩
  rcases (bind_eq_ok_iff _ _ _).mp remaining with ⟨attachments, made, same⟩
  rw [read_directory_eq_ok_iff, FileTree.read_directory_eq_ok_iff] at listed
  obtain ⟨reached, writable, opened, rfl⟩ := listed
  -- The directory that was opened is the one through which the payload was reached.
  have again : reached = home := by
    obtain ⟨located, _, _⟩ := (FileTree.stat_eq_ok_iff _ _ _ _).mp opened
    obtain ⟨_, _, through⟩ := (FileTree.locate_eq_ok_iff _ _ _).mp located
    exact Except.ok.inj (through.symm.trans walked)
  subst again
  have lies : Lies files filled.path directory reached own :=
    ⟨parent, named, steps, writable, opened⟩
  obtain ⟨members, unlocked, ordered⟩ := attachments_of_parts sound lies made
  refine ⟨directory, reached, own, payload, attachments, directed, ⟨writable, opened⟩, stated, ?_,
    members, unlocked, ordered, ?_, fun other relisted => ?_⟩
  · have called : fileName filled.path = own := by
      rw [fileName, Path.file_name_of_steps steps, Option.getD_some]
    rw [called] at same
    exact (Except.ok.inj same).symm
  · rw [file_names_of_parts made]
    exact (attachment_names_ascend files filled.path directory
      (sound.nodup_entries reached)).imp fun less same => by
        subst same
        exact String.lt_irrefl _ less
  · rw [parts_of_relisted sound relisted, built]

/-! A form with two pictures, between a hidden file and a directory. -/

def pictured : FileTree :=
  let filled := (({} : FileTree).withFile "/d/b.png" [2]).withFile "/d/h.xml" [0]
  ((filled.withFile "/d/.lock" []).withFile "/d/a.jpg" [1]).withDirectory "/d/old"

theorem pictured_sound : pictured.Sound :=
  ((((FileTree.Sound.empty.with_file _ _).with_file _ _).with_file _ _).with_file _ _).with_directory _

/-- The form, by a path with more slashes and dots than it needs. -/
def spelt : Instance where
  displayName := "H"
  formId := "h"
  formVersion := none
  status := .complete
  path := "/d//./h.xml"
  submissionUri := none
  changed := .ofSeconds 0

theorem parts_of_spelt :
    parts pictured spelt = .ok
      [⟨"xml_submission_file", "h.xml", "text/xml", [0]⟩, ⟨"a.jpg", "a.jpg", "image/jpeg", [1]⟩,
        ⟨"b.png", "b.png", "image/png", [2]⟩] := by
  have read : readFile pictured spelt.path = .ok [0] := by decide +kernel
  have directory : spelt.directory? = some "/d" := by decide +kernel
  have listed : readDirectory pictured "/d" =
      .ok ["b.png", "h.xml", ".lock", "a.jpg", "old"] := by decide +kernel
  have chosen : ["b.png", "h.xml", ".lock", "a.jpg", "old"].filter
      (isAttachment pictured spelt.path "/d") = ["b.png", "a.jpg"] := by decide +kernel
  have names : attachmentNames pictured spelt.path "/d"
      ["b.png", "h.xml", ".lock", "a.jpg", "old"] = ["a.jpg", "b.png"] := by
    rw [attachmentNames, chosen]
    simp [List.mergeSort]
  have attached : ["a.jpg", "b.png"].mapM (attachmentPart pictured "/d") =
      .ok [⟨"a.jpg", "a.jpg", "image/jpeg", [1]⟩, ⟨"b.png", "b.png", "image/png", [2]⟩] := by
    decide +kernel
  have called : fileName spelt.path = "h.xml" := by decide +kernel
  simp only [parts, read, directory, listed, bind, Except.bind, names]
  simp only [attached, called, payloadField]

theorem body_of_spelt :
    pictured.Sound ∧ spelt.directory? = some "/d" ∧
      ∀ other, FileTree.Relisted pictured other → parts other spelt = .ok
        [⟨"xml_submission_file", "h.xml", "text/xml", [0]⟩,
          ⟨"a.jpg", "a.jpg", "image/jpeg", [1]⟩, ⟨"b.png", "b.png", "image/png", [2]⟩] := by
  obtain ⟨_, _, _, _, _, _, _, _, _, _, _, _, _, relisted⟩ :=
    body_of_directory pictured_sound parts_of_spelt
  exact ⟨pictured_sound, by decide +kernel, relisted⟩

end FieldPost.Upload.Server
