import FieldPost.Connection
import FieldPost.Gate
import FieldPost.Selection
import FieldPost.Storage
import FieldPost.Submission
import FieldPost.Summary

/-!
One run without the user: through the gate, over the selected instances one by one, and to a
notice for the user at the end. A run that stops early has sent and changed nothing. An instance
that was accepted is counted, and deleted when its form or the settings want it so; a failure
is only ever the failure of its own instance.
-/

namespace FieldPost

structure Surroundings where
  settings : Settings
  storage : Storage
  connection : Option Connection
  accounts : Accounts

inductive Outcome
  | skipped
  | aborted (cause : RunError)
  | completed (summary : Summary)
deriving DecidableEq, Repr

/-- No further run is asked for. -/
def Outcome.isDone : Outcome → Bool
  | .skipped => true
  | .aborted cause => !cause.isRetryable
  | .completed _ => true

namespace Run

variable {σ : Type}

def successMessage : String := "Success"

/-- The words of the far side, if there are any. -/
def acceptedText (message : Option String) : String :=
  (message.filter fun text => !Text.isBlankText text).getD successMessage

/-- Whether an accepted instance is deleted. One whose form cannot be looked up is kept. -/
def isDeletedAfterSend (settings : Settings) (device : Device) (filled : Instance) : Bool :=
  match device.latestFormVersion filled.formId filled.formVersion with
  | .ok form => Form.deletesAfterSend form settings.deleteAfterSend
  | .error _ => false

def deleteIfWanted (settings : Settings) (world : World σ) (filled : Instance) : World σ :=
  if isDeletedAfterSend settings world.device filled then
    (world.onDevice fun device => device.deleteInstance filled.id).2
  else world

/-- The event that counts an accepted instance, which names only a digest of its form. -/
def countedEvent (route : Route) (filled : Instance) : Event :=
  .counted "Submission" route.action (Redaction.formLabel filled.formId filled.formVersion)

def sendOne (settings : Settings) (uploaders : Uploaders σ) (route : Route) (world : World σ)
    (filled : Instance) : Verdict × World σ :=
  let submitted := Submission.submit uploaders route world filled
  match submitted.1 with
  | .ok message =>
      (.success (acceptedText message),
        (deleteIfWanted settings submitted.2 filled).tell (countedEvent route filled))
  | .error error => (.failure error.userMessage, submitted.2)

def sendAll (settings : Settings) (uploaders : Uploaders σ) (route : Route) :
    Summary → World σ → List Instance → Summary × World σ
  | summary, world, [] => (summary, world)
  | summary, world, filled :: rest =>
      let sent := sendOne settings uploaders route world filled
      sendAll settings uploaders route
        (summary.record filled.id filled.displayName sent.1) sent.2 rest

/-- Sends along a route that is open, and tells the user. -/
def complete (settings : Settings) (uploaders : Uploaders σ) (world : World σ)
    (candidates : List Instance) : Outcome × World σ :=
  let sent := sendAll settings uploaders (.ofSettings settings) {} world candidates
  (.completed sent.1, sent.2.tell (.noticed sent.1.anyFailure sent.1.message))

/-- Finds the account that the route needs, and tells the user if there is none. -/
def dispatch (around : Surroundings) (uploaders : Uploaders σ) (world : World σ)
    (candidates : List Instance) : Outcome × World σ :=
  match Route.account around.settings.protocol around.accounts with
  | .error error => (.aborted error, world.tell (.noticed true error.userMessage))
  | .ok none => complete around.settings uploaders world candidates
  | .ok (some account) =>
      complete around.settings uploaders (world.tell (.selected account)) candidates

def proceed (around : Surroundings) (uploaders : Uploaders σ) (world : World σ) :
    Outcome × World σ :=
  match Selection.instances around.settings world.device with
  | .error error => (.aborted (.store error), world)
  | .ok [] => (.skipped, world)
  | .ok candidates => dispatch around uploaders world candidates

def gate (around : Surroundings) (device : Device) : Except StoreError Gate :=
  Gate.evaluate (around.storage.isMounted device.files)
    (around.settings.autoSend.allows around.connection) device.anyFormRequests

def execute (around : Surroundings) (uploaders : Uploaders σ) (world : World σ) :
    Outcome × World σ :=
  if around.storage.migrating then (.skipped, world)
  else match gate around world.device with
    | .error error => (.aborted (.store error), world)
    | .ok .stop => (.aborted .storageUnavailable, world)
    | .ok .retry => (.aborted .networkMismatch, world)
    | .ok .proceed => proceed around uploaders world

end Run

end FieldPost
