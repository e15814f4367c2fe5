import FieldPost.Proofs.Answers
import FieldPost.Settings.Loader

/-!
The form of settings and what a value of that form stands for. Each field is what stands at its
key, and has its default where the key is missing; so a value of the right form is never refused
by the reader of settings. Whether the settings can be used is left to their check.
-/

namespace FieldPost

open FieldPost.Answers

/-! ### Records -/

namespace Shape

theorem field_faults_eq (fields : List (String × Shape)) (key : String) (value : Json) :
    fieldFaults fields key value =
      match fields.lookup key with
      | some shape => shape.faults value
      | none => [] := by
  induction fields with
  | nil => simp [fieldFaults]
  | cons field fields induction =>
      obtain ⟨name, shape⟩ := field
      by_cases same : name = key
      · subst same
        simp [fieldFaults]
      · have other : (key == name) = false := beq_false_of_ne (Ne.symm same)
        simp only [fieldFaults, if_neg same, List.lookup_cons, other, induction]

theorem unexpected_eq_nil_iff (names : List String) : unexpected names = [] ↔ names = [] := by
  rcases names with _ | ⟨first, _ | ⟨second, names⟩⟩ <;> simp [unexpected]

theorem field_named_iff (fields : List (String × Shape)) (key : String) :
    (fields.map (·.1)).contains key = true ↔ ∃ shape, fields.lookup key = some shape := by
  rw [List.contains_iff_mem, ← Option.isSome_iff_exists, List.lookup_isSome_iff]
  simp

/-- A record has no faults when every entry is one of its fields and has none. -/
theorem record_faults_iff {fields : List (String × Shape)} {value : Json} :
    (Shape.record fields).faults value = [] ↔ ∃ entries, value = .object entries ∧
      ∀ entry ∈ entries, ∃ shape, fields.lookup entry.1 = some shape ∧
        shape.faults entry.2 = [] := by
  cases value with
  | object entries =>
      have parts : (Shape.record fields).faults (.object entries) = [] ↔
          ∀ entry ∈ entries, fieldFaults fields entry.1 entry.2 = [] ∧
            (fields.map (·.1)).contains entry.1 = true := by
        simp only [faults, List.append_eq_nil_iff, List.flatMap_eq_nil_iff, unexpected_eq_nil_iff,
          List.map_eq_nil_iff, List.filter_eq_nil_iff, beq_iff_eq, Bool.not_eq_false]
        exact forall₂_and.symm
      rw [parts]
      simp only [Json.object.injEq, exists_eq_left', field_named_iff, field_faults_eq]
      apply forall₂_congr
      intro entry _
      cases fields.lookup entry.1 <;> simp
  | _ => simp [faults, wrongType]

end Shape

/-! ### Meanings -/

/-- What is held for a key: the meaning of the value that stands there, or the default. -/
def Held {α : Type} (Means : Json → α → Prop) (default : α) : Option Json → α → Prop
  | none, held => held = default
  | some value, held => Means value held

namespace Settings

inductive MeansFlag : Json → Bool → Prop
  | flag (held : Bool) : MeansFlag (.bool held) held

inductive MeansText : Json → String → Prop
  | text (held : String) : MeansText (.string held) held

inductive MeansOptional : Json → Option String → Prop
  | nothing : MeansOptional .null none
  | text (held : String) : MeansOptional (.string held) (some held)

inductive MeansMode : Json → SendMode → Prop
  | off : MeansMode (.string "off") .off
  | wifiOnly : MeansMode (.string "wifi_only") .wifiOnly
  | cellularOnly : MeansMode (.string "cellular_only") .cellularOnly
  | wifiAndCellular : MeansMode (.string "wifi_and_cellular") .wifiAndCellular

/-- The server protocol has an old name beside its own. -/
inductive MeansProtocol : Json → Protocol → Prop
  | server : MeansProtocol (.string "server") .server
  | oldName : MeansProtocol (.string "odk_default") .server
  | spreadsheet : MeansProtocol (.string "google_sheets") .spreadsheet

structure MeansServer (value : Json) (server : ServerSettings) : Prop where
  isObject : ∃ entries, value = .object entries
  url : Held MeansText "https://demo.getodk.org" (value.get? "url") server.url
  submissionPath : Held MeansText "/submission" (value.get? "submissionPath") server.submissionPath
  username : Held MeansOptional none (value.get? "username") server.username
  password : Held MeansOptional none (value.get? "password") server.password
  passwordFile : Held MeansOptional none (value.get? "passwordFile") server.passwordFile
  passwordVariable :
    Held MeansOptional none (value.get? "passwordEnvVar") server.passwordVariable

structure MeansSpreadsheet (value : Json) (url : Option String) : Prop where
  isObject : ∃ entries, value = .object entries
  url : Held MeansOptional none (value.get? "url") url

/-- The server that is meant when nothing is said of one. -/
def demoServer : ServerSettings where
  url := "https://demo.getodk.org"
  submissionPath := "/submission"
  username := none
  password := none
  passwordFile := none
  passwordVariable := none

/-- The settings that a value stands for, field by field. -/
structure Means (value : Json) (settings : Settings) : Prop where
  isObject : ∃ entries, value = .object entries
  autoSend : Held MeansMode .off (value.get? "autoSend") settings.autoSend
  deleteAfterSend : Held MeansFlag false (value.get? "deleteAfterSend") settings.deleteAfterSend
  protocol : Held MeansProtocol .server (value.get? "protocol") settings.protocol
  server : Held MeansServer demoServer (value.get? "server") settings.server
  spreadsheet : Held MeansSpreadsheet none (value.get? "spreadsheet") settings.spreadsheetUrl
  deviceId : Held MeansOptional none (value.get? "deviceId") settings.deviceId

/-! ### Fields -/

/-- A field is read as its default when its key is missing, and a value of the right form as what
it means. -/
structure ReadsField {α : Type} (shape : Shape) (default : α) (read : Option Json → Option α)
    (Means : Json → α → Prop) : Prop where
  missing : read none = some default
  present : ∀ value, shape.faults value = [] → ∃ held, read (some value) = some held ∧
    Means value held

theorem ReadsField.at_key {α : Type} {shape : Shape} {default : α}
    {read : Option Json → Option α} {Means : Json → α → Prop}
    (reads : ReadsField shape default read Means) {fields : List (String × Shape)}
    {entries : List (String × Json)} (key : String) (named : fields.lookup key = some shape)
    (fits : ∀ entry ∈ entries, ∃ shape, fields.lookup entry.1 = some shape ∧
      shape.faults entry.2 = []) :
    ∃ held, read (entries.lookup key) = some held ∧
      Held Means default (entries.lookup key) held := by
  rcases found : entries.lookup key with _ | value
  · exact ⟨default, reads.missing, rfl⟩
  · obtain ⟨before, after, rfl, _⟩ := List.lookup_eq_some_iff.mp found
    obtain ⟨other, same, faultless⟩ := fits (key, value) (by simp)
    rw [named] at same
    cases same
    exact reads.present value faultless

theorem reads_flag (default : Bool) : ReadsField .flag default (readFlag default) MeansFlag where
  missing := rfl
  present value faultless := by
    cases value with
    | bool held => exact ⟨held, rfl, .flag held⟩
    | _ => simp [Shape.faults, Shape.wrongType] at faultless

theorem reads_text (nonEmpty : Bool) (default : String) :
    ReadsField (.text nonEmpty) default (readString default) MeansText where
  missing := rfl
  present value faultless := by
    cases value with
    | string held => exact ⟨held, rfl, .text held⟩
    | _ => simp [Shape.faults, Shape.wrongType] at faultless

theorem reads_optional : ReadsField .optionalText none readOptional MeansOptional where
  missing := rfl
  present value faultless := by
    cases value with
    | null => exact ⟨none, rfl, .nothing⟩
    | string held => exact ⟨some held, rfl, .text held⟩
    | _ => simp [Shape.faults] at faultless

/-- A value that has to be one of some names is one of them. -/
theorem name_of_faultless {names : List String} {value : Json}
    (faultless : (Shape.oneOf names).faults value = []) :
    ∃ name ∈ names, value = .string name := by
  cases value with
  | string held =>
      simp only [Shape.faults] at faultless
      split at faultless
      · rename_i known
        exact ⟨held, List.contains_iff_mem.mp known, rfl⟩
      · cases faultless
  | _ => simp [Shape.faults] at faultless

theorem reads_mode :
    ReadsField (.oneOf ["off", "wifi_only", "cellular_only", "wifi_and_cellular"]) .off
      (readName .off SendMode.ofText?) MeansMode where
  missing := rfl
  present value faultless := by
    obtain ⟨name, known, rfl⟩ := name_of_faultless faultless
    simp only [List.mem_cons, List.not_mem_nil, or_false] at known
    rcases known with rfl | rfl | rfl | rfl
    · exact ⟨.off, rfl, .off⟩
    · exact ⟨.wifiOnly, rfl, .wifiOnly⟩
    · exact ⟨.cellularOnly, rfl, .cellularOnly⟩
    · exact ⟨.wifiAndCellular, rfl, .wifiAndCellular⟩

theorem reads_protocol :
    ReadsField (.oneOf ["server", "odk_default", "google_sheets"]) .server
      (readName .server Protocol.ofText?) MeansProtocol where
  missing := rfl
  present value faultless := by
    obtain ⟨name, known, rfl⟩ := name_of_faultless faultless
    simp only [List.mem_cons, List.not_mem_nil, or_false] at known
    rcases known with rfl | rfl | rfl
    · exact ⟨.server, rfl, .server⟩
    · exact ⟨.server, rfl, .oldName⟩
    · exact ⟨.spreadsheet, rfl, .spreadsheet⟩

theorem reads_server :
    ReadsField serverShape demoServer (readRecord {} serverKeys readServer) MeansServer where
  missing := rfl
  present value faultless := by
    obtain ⟨entries, rfl, fits⟩ := Shape.record_faults_iff.mp faultless
    obtain ⟨url, urlRead, heldUrl⟩ :=
      (reads_text true demoServer.url).at_key "url" rfl fits
    obtain ⟨path, pathRead, heldPath⟩ :=
      (reads_text false demoServer.submissionPath).at_key "submissionPath" rfl fits
    obtain ⟨username, usernameRead, heldUsername⟩ :=
      reads_optional.at_key "username" rfl fits
    obtain ⟨password, passwordRead, heldPassword⟩ :=
      reads_optional.at_key "password" rfl fits
    obtain ⟨passwordFile, fileRead, heldFile⟩ :=
      reads_optional.at_key "passwordFile" rfl fits
    obtain ⟨passwordVariable, variableRead, heldVariable⟩ :=
      reads_optional.at_key "passwordEnvVar" rfl fits
    refine ⟨⟨url, path, username, password, passwordFile, passwordVariable⟩, ?_, ⟨entries, rfl⟩,
      heldUrl, heldPath, heldUsername, heldPassword, heldFile, heldVariable⟩
    change readServer entries = _
    simp only [demoServer] at urlRead pathRead
    simp only [readServer, urlRead, pathRead, usernameRead, passwordRead, fileRead, variableRead,
      bind, Option.bind]

theorem reads_spreadsheet :
    ReadsField (.record [("url", .optionalText)]) none (readRecord none ["url"] readSpreadsheet)
      MeansSpreadsheet where
  missing := rfl
  present value faultless := by
    obtain ⟨entries, rfl, fits⟩ := Shape.record_faults_iff.mp faultless
    obtain ⟨url, urlRead, heldUrl⟩ := reads_optional.at_key "url" rfl fits
    exact ⟨url, urlRead, ⟨entries, rfl⟩, heldUrl⟩

theorem means_of_faultless {value : Json} (faultless : shape.faults value = []) :
    ∃ settings, ofJson? value = some settings ∧ Means value settings := by
  obtain ⟨entries, rfl, fits⟩ := Shape.record_faults_iff.mp faultless
  obtain ⟨mode, modeRead, heldMode⟩ := reads_mode.at_key "autoSend" rfl fits
  obtain ⟨flag, flagRead, heldFlag⟩ :=
    (reads_flag false).at_key "deleteAfterSend" rfl fits
  obtain ⟨protocol, protocolRead, heldProtocol⟩ :=
    reads_protocol.at_key "protocol" rfl fits
  obtain ⟨server, serverRead, heldServer⟩ := reads_server.at_key "server" rfl fits
  obtain ⟨sheet, sheetRead, heldSheet⟩ := reads_spreadsheet.at_key "spreadsheet" rfl fits
  obtain ⟨device, deviceRead, heldDevice⟩ := reads_optional.at_key "deviceId" rfl fits
  refine ⟨⟨mode, flag, protocol, server, sheet, device⟩, ?_, ⟨entries, rfl⟩, heldMode, heldFlag,
    heldProtocol, heldServer, heldSheet, heldDevice⟩
  change readFields entries = _
  simp only [readFields, modeRead, flagRead, protocolRead, serverRead, sheetRead, deviceRead,
    bind, Option.bind]

/-! ### Loading -/

theorem check_shape_eq_ok_iff (value : Json) :
    checkShape value = .ok () ↔ shape.faults value = [] := by
  unfold checkShape
  split <;> simp_all

/-- Settings that were loaded passed the check. -/
theorem load_eq_ok_iff {environment : Environment} {files : FileTree} {text : String}
    {settings : Settings} :
    load environment files text = .ok settings ↔ ∃ value, Json.ofText text = .ok value ∧
      checkShape value = .ok () ∧ ofJson? value = some settings ∧
      settings.check environment files = .ok () := by
  rcases given : Json.ofText text with fault | value
  · simp [load, given]
  · simp only [load, given, ofValue, bind_eq_ok_iff, ofShaped, Except.ok.injEq]
    constructor
    · rintro ⟨_, shaped, found, readable, _, passed, rfl⟩
      rcases read : ofJson? value with _ | held
      · simp [read] at readable
      · simp only [read, Except.ok.injEq] at readable
        exact ⟨value, rfl, shaped, readable ▸ read, passed⟩
    · rintro ⟨_, rfl, shaped, read, passed⟩
      exact ⟨(), shaped, settings, by rw [read], (), passed, rfl⟩

theorem url_of_checked {environment : Environment} {files : FileTree} {settings : Settings}
    (checked : settings.check environment files = .ok ()) :
    ∃ url, Url.parse settings.server.url = .ok url := by
  obtain ⟨_, parsed, _⟩ := (bind_eq_ok_iff _ _ _).mp checked
  rw [checkServerUrl] at parsed
  split at parsed
  · rename_i url found
    exact ⟨url, found⟩
  · cases parsed

/-- A value that has the form of settings stands for settings, each field of which is what stands
at its key or else its default. Of a text of such a value only the check of the settings can
fail. -/
theorem settings_of_shaped (value : Json) (shaped : checkShape value = .ok ()) :
    ∃ settings, ofJson? value = some settings ∧ Means value settings ∧
      ∀ environment files text, Json.ofText text = .ok value →
        load environment files text =
          (settings.check environment files).map fun _ => settings := by
  obtain ⟨settings, read, means⟩ := means_of_faultless ((check_shape_eq_ok_iff value).mp shaped)
  refine ⟨settings, read, means, ?_⟩
  intro environment files text given
  simp only [load, given, ofValue, shaped, ofShaped, read, bind, Except.bind]
  cases settings.check environment files <;> rfl

/-! A value with a name that is not the protocol's own, a null and a server of which little is
said. -/

def terseText : String :=
  "\x7b\"protocol\":\"odk_default\",\"server\":\x7b\"username\":\"u\"\x7d,\"deviceId\":null\x7d"

def terseValue : Json := .object
  [("deviceId", .null), ("protocol", .string "odk_default"),
   ("server", .object [("username", .string "u")])]

def terseSettings : Settings := { server := { demoServer with username := some "u" } }

theorem terse_settings_loaded :
    checkShape terseValue = .ok () ∧ Means terseValue terseSettings ∧
      load ⟨none, []⟩ {} terseText = .ok terseSettings := by
  have shaped : checkShape terseValue = .ok () := rfl
  have given : Json.ofText terseText = .ok terseValue := rfl
  obtain ⟨settings, read, means, loads⟩ := settings_of_shaped terseValue shaped
  have same : ofJson? terseValue = some terseSettings := rfl
  rw [same, Option.some.injEq] at read
  subst read
  have passed : terseSettings.check ⟨none, []⟩ {} = .ok () :=
    eq_ok_of_to_option (by decide +kernel)
  refine ⟨shaped, means, ?_⟩
  rw [loads ⟨none, []⟩ {} terseText given, passed]
  rfl

end Settings

end FieldPost
