import FieldPost.Opening.Progress

/-!
The lines that notices, downloads and counted events leave in the log.
-/

namespace FieldPost.Log

inductive Level
  | debug
  | info
  | warn
deriving DecidableEq, Repr

def Level.text : Level → String
  | .debug => "DEBUG"
  | .info => "INFO"
  | .warn => "WARN"

/-- A line may carry named fields beside its text. -/
structure Line where
  level : Level
  target : String
  text : String
  fields : List (String × String) := []
deriving DecidableEq, Repr

def ofNotice (anyFailure : Bool) (message : String) : Line :=
  if anyFailure then
    ⟨.warn, "formrelay::notify", "Auto-send finished with failures:\n" ++ message, []⟩
  else ⟨.info, "formrelay::notify", "Auto-send finished:\n" ++ message, []⟩

def downloadTarget : String := "formrelay::forms::download"

def ofDownload (event : DownloadEvent) : Line :=
  match event.stage with
  | .started => ⟨.info, downloadTarget, "Downloading form " ++ event.formId, []⟩
  | .progress completed total =>
      ⟨.debug, downloadTarget,
        "Form " ++ event.formId ++ ": " ++ toString completed ++ "/" ++ toString total ++ " files", []⟩
  | .completed => ⟨.info, downloadTarget, "Downloaded form " ++ event.formId, []⟩
  | .failed reason =>
      ⟨.warn, downloadTarget, "Download of form " ++ event.formId ++ " failed: " ++ reason, []⟩

def ofCounted (category action label : String) : Line :=
  ⟨.info, "analytics", "analytics event",
    [("category", category), ("action", action), ("label", label)]⟩

end FieldPost.Log
