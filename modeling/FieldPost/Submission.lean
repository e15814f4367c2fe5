import FieldPost.Redaction
import FieldPost.Route
import FieldPost.SheetLink
import FieldPost.World

/-!
Sending one instance along a route. Its status tells the outcome afterwards, except when a row
was to go into something that is no spreadsheet: then nothing is sent and nothing is changed.
The outcome stands even if the status cannot be written.
-/

namespace FieldPost.Submission

variable {σ : Type}

/-- Writes a status, and goes on in any case. -/
def mark (world : World σ) (filled : Instance) (status : Status) : World σ :=
  (world.onDevice fun device => device.updateStatus filled.id status).2

def hand (uploader : Uploader σ) (world : World σ) (filled : Instance) (url : String) :
    Except UploadError (Option String) × World σ :=
  let sent := uploader.send world.device.files filled url world.far
  (sent.1, { world with far := sent.2 }.tell (.sent filled.id url sent.1))

def send (uploader : Uploader σ) (world : World σ) (filled : Instance) (url : String) :
    Except RunError (Option String) × World σ :=
  let handed := hand uploader world filled url
  match handed.1 with
  | .ok message => (.ok message, mark handed.2 filled .submitted)
  | .error error =>
      (.error (.uploadFailed filled.id error), mark handed.2 filled .submissionFailed)

/-- Sends an instance, and answers with the message of the far side. -/
def submit (uploaders : Uploaders σ) (route : Route) (world : World σ) (filled : Instance) :
    Except RunError (Option String) × World σ :=
  let uploader := route.uploader uploaders
  match uploader.destination filled route.deviceId with
  | .error error =>
      (.error (.uploadFailed filled.id error), mark world filled .submissionFailed)
  | .ok url =>
      if route.protocol = .spreadsheet ∧ SheetLink.isSheet url = false then
        (.error (.notASpreadsheet filled.id (Redaction.url url)), world)
      else send uploader world filled url

end FieldPost.Submission
