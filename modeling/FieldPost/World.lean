import FieldPost.Device
import FieldPost.Opening.Launch
import FieldPost.Opening.Progress
import FieldPost.Upload.Error

/-!
Everything that runs and openings act on: the device, the far side, and the record of what was
done where others see it. Events are only ever added to the record.
-/

namespace FieldPost

/-- What others see: accounts that were selected, instances handed to an uploader with what came
of it, what was counted and told to the user, downloads, and launches. -/
inductive Event
  | selected (account : String)
  | sent (instanceId : Int) (url : String) (answer : Except UploadError (Option String))
  | counted (category action label : String)
  | noticed (anyFailure : Bool) (message : String)
  | downloaded (event : DownloadEvent)
  | launched (launch : Launch)

structure World (σ : Type) where
  device : Device
  far : σ
  events : List Event := []

namespace World

variable {σ : Type}

def tell (world : World σ) (event : Event) : World σ :=
  { world with events := world.events ++ [event] }

/-- Acts on the device alone. -/
def onDevice {α : Type} (world : World σ) (act : Device → α × Device) : α × World σ :=
  let acted := act world.device
  (acted.1, { world with device := acted.2 })

end World

end FieldPost
