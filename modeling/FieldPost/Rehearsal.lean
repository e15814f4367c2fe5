import FieldPost.Http
import FieldPost.Opening
import FieldPost.Route

/-!
Rehearsals: a far side that answers out of a script instead of reaching anyone, and notes what
was asked of it. Runs and openings can be tried on it without a network and without a screen.
-/

namespace FieldPost.Rehearsal

/-- What the script says of the instances of a form: their destination may be refused, and
sending them may be answered in any way. -/
structure Reply where
  refusal : Option UploadError := none
  answer : Except UploadError (Option String) := .ok none

/-- A form as it is delivered, with or without its file and its record. It is as old as the
script says, or new. -/
structure Delivery where
  version : Option String := none
  path : String
  added : Option Moment := none
  writes : Bool := true
  records : Bool := true

structure Call where
  protocol : Protocol
  instanceId : Int
  url : String
deriving DecidableEq, Repr

/-- The script, by form identifiers, and what was asked so far. Uploaders that send requests find
their peer here too. -/
structure Stage where
  peer : Http.Peer := {}
  replies : List (String × Reply) := []
  deliveries : List (String × Except DownloadError Delivery) := []
  launchFault : Option String := none
  calls : List Call := []
  requested : List String := []

/-- Where instances without a destination of their own go. -/
def fallback : Protocol → String
  | .server => "https://odk.example.org/submission"
  | .spreadsheet => "https://docs.google.com/spreadsheets/d/1SheetId/edit"

def replyTo (replies : List (String × Reply)) (filled : Instance) : Reply :=
  (replies.lookup filled.formId).getD {}

def destination (replies : List (String × Reply)) (protocol : Protocol) (filled : Instance)
    (deviceId : Option String) : Except UploadError String :=
  match (replyTo replies filled).refusal with
  | some error => .error error
  | none =>
      let base := filled.submissionUri.getD (fallback protocol)
      match deviceId with
      | none => .ok base
      | some deviceId => .ok (base ++ "?deviceID=" ++ deviceId)

/-- Notes the call, whatever it is answered. -/
def send (protocol : Protocol) (filled : Instance) (url : String) (stage : Stage) :
    Except UploadError (Option String) × Stage :=
  ((replyTo stage.replies filled).answer,
    { stage with calls := stage.calls ++ [⟨protocol, filled.id, url⟩] })

def uploader (replies : List (String × Reply)) (protocol : Protocol) : Uploader Stage where
  destination := destination replies protocol
  send := fun _ => send protocol

def uploaders (replies : List (String × Reply)) : Uploaders Stage :=
  ⟨uploader replies .server, uploader replies .spreadsheet⟩

/-- An uploader that sends requests to the peer. -/
def overPeer (uploader : Uploader Http.Peer) : Uploader Stage :=
  uploader.within Stage.peer fun peer stage => { stage with peer }

def definition : Text.Bytes := Text.Utf8.encode "<h:html/>"

def form (formId : String) (delivery : Delivery) (clock : Moment) : Form where
  formId := formId
  version := delivery.version
  displayName := formId
  path := delivery.path
  mediaPath := none
  autoSend := none
  autoDelete := none
  added := delivery.added.getD clock

/-- Keeps the record of a delivered form, if the store takes it. -/
def record (device : Device) (delivered : Form) : Except DownloadError Form × Device :=
  match device.insertForm delivered with
  | (.ok id, device) => (.ok { delivered with id }, device)
  | (.error error, device) => (.error (.network error.message), device)

def deliver (formId : String) (delivery : Delivery) (device : Device) :
    Except DownloadError Form × Device :=
  let delivered := form formId delivery device.clock
  let ready := { device with
    clock := device.clock.succMicro
    files := if delivery.writes then device.files.withFile delivery.path definition
      else device.files }
  if delivery.records then record ready delivered else (.ok delivered, ready)

def fetch (deliveries : List (String × Except DownloadError Delivery)) (formId : String)
    (device : Device) : Except DownloadError Form × Device :=
  match deliveries.lookup formId with
  | none => (.error (.notFound formId), device)
  | some (.error error) => (.error error, device)
  | some (.ok delivery) => deliver formId delivery device

/-- How a download ends for those who watch it. -/
def ending : Except DownloadError Form → DownloadStage
  | .ok _ => .completed
  | .error error => .failed error.message

def download (formId : String) (device : Device) (stage : Stage) : Download Form Stage :=
  let fetched := fetch stage.deliveries formId device
  { answer := fetched.1
    progress := [⟨formId, .started⟩, ⟨formId, ending fetched.1⟩]
    device := fetched.2
    far := { stage with requested := stage.requested ++ [formId] } }

def required : String := "required"

def services : FormServices Stage where
  download := download
  downloadRequired := fun device stage =>
    let done := download required device stage
    { done with answer := done.answer.map fun _ => () }
  launch := fun _ stage =>
    (match stage.launchFault with
      | some reason => .error reason
      | none => .ok (),
      stage)

end FieldPost.Rehearsal
