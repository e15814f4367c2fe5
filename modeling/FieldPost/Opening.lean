import FieldPost.Opening.Error
import FieldPost.World

/-!
Opening forms. A form is there with its definition, there without it, or not there at all; in
the last two cases it is downloaded before it is shown. Opening it blank discards the drafts of
it that lie about; opening it saved resumes the latest of them. Nothing is shown when something
failed before.
-/

namespace FieldPost

/-- How a download ended, and what it told and changed on its way. -/
structure Download (α σ : Type) where
  answer : Except DownloadError α
  progress : List DownloadEvent
  device : Device
  far : σ

/-- The services that fetch forms and show them. -/
structure FormServices (σ : Type) where
  download : String → Device → σ → Download Form σ
  downloadRequired : Device → σ → Download Unit σ
  launch : Launch → σ → Except String Unit × σ

inductive CacheState
  | absent
  | valid (form : Form)
  | corrupt (form : Form)
deriving DecidableEq, Repr

inductive Opened
  | blank (form : Form)
  | resumed (filled : Instance)
deriving DecidableEq, Repr

namespace Opening

variable {σ α : Type}

abbrev Answer (α : Type) := Except OpeningError α

def ofStore (answer : Device.Answer α) : Answer α := answer.mapError OpeningError.store

def cacheState (device : Device) (formId : String) : Answer CacheState :=
  ofStore ((device.latestForm formId).map fun latest =>
    match latest with
    | none => .absent
    | some form =>
        if form.definitionExists device.files then .valid form else .corrupt form)

def receive (world : World σ) (download : Download α σ) : Answer α × World σ :=
  (download.answer.mapError OpeningError.downloadFailed,
    { device := download.device
      far := download.far
      events := world.events ++ download.progress.map Event.downloaded })

def download (services : FormServices σ) (formId : String) (world : World σ) : Answer Form × World σ :=
  receive world (services.download formId world.device world.far)

def prepare (services : FormServices σ) (world : World σ) : Answer Unit × World σ :=
  receive world (services.downloadRequired world.device world.far)

def launch (services : FormServices σ) (wanted : Launch) (opened : Opened) (world : World σ) :
    Answer Opened × World σ :=
  let launched := services.launch wanted world.far
  ((launched.1.mapError OpeningError.launch).map fun _ => opened,
    { world with far := launched.2 }.tell (.launched wanted))

def drafts (device : Device) (formId : String) : Answer (List Instance) :=
  ofStore ((device.instancesByFormId formId).map fun found =>
    found.filter fun filled => filled.status == .incomplete)

/-- Deletes instances in turn, up to the first that cannot be deleted. -/
def discard (world : World σ) : List Instance → Answer Unit × World σ
  | [] => (.ok (), world)
  | draft :: rest =>
      let deleted := world.onDevice fun device => device.deleteInstance draft.id
      match deleted.1 with
      | .error error => (.error (.store error), deleted.2)
      | .ok () => discard deleted.2 rest

def discardDrafts (formId : String) (world : World σ) : Answer Unit × World σ :=
  match drafts world.device formId with
  | .error error => (.error error, world)
  | .ok found => discard world found

/-- Drops the records of a form whose definition is gone, and downloads it again. -/
def repair (services : FormServices σ) (formId : String) (world : World σ) : Answer Form × World σ :=
  let dropped := world.onDevice fun device => device.deleteForms formId
  match dropped.1 with
  | .error error => (.error (.store error), dropped.2)
  | .ok _ => download services formId dropped.2

/-- The form with its definition, from the device if it is there. -/
def obtain (services : FormServices σ) (formId : String) (world : World σ) : Answer Form × World σ :=
  match cacheState world.device formId with
  | .error error => (.error error, world)
  | .ok (.valid form) => (.ok form, world)
  | .ok .absent => download services formId world
  | .ok (.corrupt _) => repair services formId world

def showBlank (services : FormServices σ) (obtained : Answer Form × World σ) : Answer Opened × World σ :=
  match obtained.1 with
  | .error error => (.error error, obtained.2)
  | .ok form => launch services (.blank form) (.blank form) obtained.2

def openForm (services : FormServices σ) (formId : String) (world : World σ) : Answer Opened × World σ :=
  let discarded := discardDrafts formId world
  match discarded.1 with
  | .error error => (.error error, discarded.2)
  | .ok () => showBlank services (obtain services formId discarded.2)

/-- Changed later, or as late and with a greater identifier. -/
def isLater (left right : Instance) : Bool :=
  right.changed.before left.changed ||
    (right.changed == left.changed && right.id < left.id)

def latest : List Instance → Option Instance
  | [] => none
  | filled :: rest =>
      match latest rest with
      | none => some filled
      | some found => some (if isLater filled found then filled else found)

/-- Resumes the latest draft of a form at its beginning, or else opens the form blank. -/
def openSavedForm (services : FormServices σ) (formId : String) (world : World σ) :
    Answer Opened × World σ :=
  match drafts world.device formId with
  | .error error => (.error error, world)
  | .ok found =>
      match latest found with
      | some draft => launch services (.resume draft .beginning) (.resumed draft) world
      | none => openForm services formId world

end Opening

end FieldPost
