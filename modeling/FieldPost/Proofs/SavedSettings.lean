import FieldPost.Proofs.JsonRoundTrip
import FieldPost.Proofs.Shapes
import FieldPost.Settings.Printer

/-!
Settings that are saved and loaded again. What is saved has every key, a null where nothing is set,
and the present name of the protocol; it has the form of settings and stands for the same ones.
Files and environment are those of the first loading.
-/

namespace FieldPost

open FieldPost.Answers

namespace Json

theorem lookup_cons_entry (name key : String) (value : Json) (entries : List (String × Json)) :
    ((name, value) :: entries).lookup key =
      if key = name then some value else entries.lookup key := by
  rw [List.lookup_cons]
  by_cases same : key = name
  · simp [same]
  · simp [same, beq_false_of_ne same]

theorem lookup_put_entry (name key : String) (value : Json) (entries : List (String × Json)) :
    (putEntry name value entries).lookup key =
      if key = name then some value else entries.lookup key := by
  induction entries with
  | nil => exact lookup_cons_entry name key value []
  | cons entry entries induction =>
      obtain ⟨other, held⟩ := entry
      simp only [putEntry]
      split
      · rename_i same
        subst same
        simp only [lookup_cons_entry]
        split <;> rfl
      split
      · exact lookup_cons_entry name key value _
      · rename_i differs _
        simp only [lookup_cons_entry, induction]
        by_cases first : key = other
        · simp [first, Ne.symm differs]
        · simp [first]

theorem mem_of_put_entry {name : String} {value : Json} {entries : List (String × Json)}
    {entry : String × Json} (member : entry ∈ putEntry name value entries) :
    entry = (name, value) ∨ entry ∈ entries := by
  induction entries with
  | nil => simpa [putEntry] using member
  | cons first entries induction =>
      obtain ⟨other, held⟩ := first
      simp only [putEntry] at member
      split at member
      · rcases List.mem_cons.mp member with new | old
        · exact .inl new
        · exact .inr (List.mem_cons_of_mem _ old)
      split at member
      · exact List.mem_cons.mp member
      · rcases List.mem_cons.mp member with kept | later
        · exact .inr (kept ▸ List.mem_cons_self)
        · rcases induction later with new | old
          · exact .inl new
          · exact .inr (List.mem_cons_of_mem _ old)

theorem mem_of_filed_entries {held entries : List (String × Json)} {entry : String × Json}
    (member : entry ∈ filedEntries held entries) :
    entry ∈ held ∨ ∃ one ∈ entries, entry = (one.1, one.2.filed) := by
  induction entries generalizing held with
  | nil => exact .inl member
  | cons first entries induction =>
      rcases induction member with early | ⟨one, later, same⟩
      · rcases mem_of_put_entry early with new | old
        · exact .inr ⟨first, List.mem_cons_self, new⟩
        · exact .inl old
      · exact .inr ⟨one, List.mem_cons_of_mem _ later, same⟩

end Json

/-- An object has the form of a record if its entries do, in whatever order they are kept. -/
theorem Shape.filed_record_faultless {fields : List (String × Shape)}
    {entries : List (String × Json)}
    (fits : ∀ entry ∈ entries, ∃ shape, fields.lookup entry.1 = some shape ∧
      shape.faults entry.2.filed = []) :
    (Shape.record fields).faults (Json.object entries).filed = [] := by
  apply record_faults_iff.mpr
  refine ⟨_, rfl, ?_⟩
  intro entry member
  rcases Json.mem_of_filed_entries member with nothing | ⟨one, held, rfl⟩
  · cases nothing
  · exact fits one held

namespace Settings

@[simp] theorem filed_optional_text (text : Option String) :
    (optionalText text).filed = optionalText text := by
  cases text <;> rfl

@[simp] theorem read_optional_text (text : Option String) :
    readOptional (some (optionalText text)) = some text := by
  cases text <;> rfl

@[simp] theorem optional_text_faultless (text : Option String) :
    Shape.optionalText.faults (optionalText text) = [] := by
  cases text <;> rfl

theorem nests_optional_text (depth : Nat) (text : Option String) :
    Json.Nests depth (optionalText text) := by
  cases text with
  | none => exact .null
  | some text => exact .string text

/-! ### The server -/

theorem read_saved_server (server : ServerSettings) :
    readRecord {} serverKeys readServer (some (serverJson server).filed) = some server := by
  simp [serverJson, Json.filed, Json.filedEntries, Json.lookup_put_entry, readRecord, fields?,
    readServer, readString]

theorem saved_server_faultless {server : ServerSettings} (named : server.url ≠ "") :
    serverShape.faults (serverJson server).filed = [] := by
  apply Shape.filed_record_faultless
  intro entry member
  simp only [List.mem_cons, List.not_mem_nil, or_false] at member
  rcases member with rfl | rfl | rfl | rfl | rfl | rfl
  · exact ⟨.text true, rfl, by simp [Json.filed, Shape.faults, named]⟩
  · exact ⟨.text false, rfl, by simp [Json.filed, Shape.faults]⟩
  all_goals exact ⟨.optionalText, rfl, by simp⟩

theorem nests_saved_server (depth : Nat) (server : ServerSettings) :
    Json.Nests (depth + 1) (serverJson server) := by
  apply Json.Nests.object
  intro entry member
  simp only [List.mem_cons, List.not_mem_nil, or_false] at member
  rcases member with rfl | rfl | rfl | rfl | rfl | rfl
  · exact .string _
  · exact .string _
  all_goals exact nests_optional_text depth _

/-! ### Settings -/

theorem of_json_saved (settings : Settings) : ofJson? settings.toJson.filed = some settings := by
  have server := read_saved_server settings.server
  have sheet : readRecord none ["url"] readSpreadsheet (some (.object
      (Json.putEntry "url" (optionalText settings.spreadsheetUrl) []))) =
        some settings.spreadsheetUrl := by
    simp [Json.lookup_put_entry, readRecord, fields?, readSpreadsheet]
  have mode := SendMode.ofText?_text settings.autoSend
  have protocol := Protocol.ofText?_text settings.protocol
  simp [toJson, Json.filed, Json.filedEntries, Json.lookup_put_entry, ofJson?, fields?, readFields,
    readName, readFlag, mode, protocol, server, sheet]

theorem shape_saved {settings : Settings} (named : settings.server.url ≠ "") :
    shape.faults settings.toJson.filed = [] := by
  apply Shape.filed_record_faultless
  intro entry member
  simp only [List.mem_cons, List.not_mem_nil, or_false] at member
  rcases member with rfl | rfl | rfl | rfl | rfl | rfl
  · refine ⟨_, rfl, ?_⟩
    cases settings.autoSend <;> rfl
  · exact ⟨_, rfl, rfl⟩
  · refine ⟨_, rfl, ?_⟩
    cases settings.protocol <;> rfl
  · exact ⟨_, rfl, saved_server_faultless named⟩
  · refine ⟨_, rfl, Shape.filed_record_faultless ?_⟩
    intro field inside
    rw [List.mem_singleton] at inside
    subst inside
    exact ⟨_, rfl, by simp⟩
  · exact ⟨_, rfl, by simp⟩

theorem nests_saved (settings : Settings) :
    Json.Nests JsonReader.depthLimit settings.toJson := by
  apply Json.Nests.object
  intro entry member
  simp only [List.mem_cons, List.not_mem_nil, or_false] at member
  rcases member with rfl | rfl | rfl | rfl | rfl | rfl
  · exact .string _
  · exact .bool _
  · exact .string _
  · exact nests_saved_server _ _
  · apply Json.Nests.object
    intro field inside
    rw [List.mem_singleton] at inside
    subst inside
    exact nests_optional_text _ _
  · exact nests_optional_text _ _

theorem url_ne_of_checked {environment : Environment} {files : FileTree} {settings : Settings}
    (checked : settings.check environment files = .ok ()) : settings.server.url ≠ "" := by
  intro missing
  obtain ⟨url, parsed⟩ := url_of_checked checked
  have refused : (Url.parse "").isOk = false := by decide +kernel
  rw [← missing, parsed] at refused
  cases refused

/-- Settings that were loaded are loaded again from what is saved of them, whatever is not set in
them and whatever their texts hold. -/
theorem load_save {environment : Environment} {files : FileTree} {text : String}
    {settings : Settings} (loaded : load environment files text = .ok settings) :
    load environment files settings.save = .ok settings := by
  obtain ⟨_, _, _, _, passed⟩ := load_eq_ok_iff.mp loaded
  have read := Json.of_text_of_nests settings.nests_saved
  have shaped := shape_saved (url_ne_of_checked passed)
  exact load_eq_ok_iff.mpr
    ⟨_, read, (check_shape_eq_ok_iff _).mpr shaped, settings.of_json_saved, passed⟩

/-! Settings with the old name of a protocol, nothing else but an identifier in them, and in that
a quote, a backslash, a control character, a line end and a character outside the basic plane. -/

def labelledText : String :=
  "\x7b\"deviceId\":\"a\\\"\\\\\\u0001\\n\\ud83d\\ude00\",\"protocol\":\"odk_default\"\x7d"

def labelledSettings : Settings := { deviceId := some "a\"\\\x01\n😀" }

theorem labelled_settings_saved :
    load ⟨none, []⟩ {} labelledText = .ok labelledSettings ∧
      load ⟨none, []⟩ {} labelledSettings.save = .ok labelledSettings := by
  have loaded : load ⟨none, []⟩ {} labelledText = .ok labelledSettings :=
    eq_ok_of_to_option (by decide +kernel)
  exact ⟨loaded, load_save loaded⟩

end Settings

end FieldPost
