import FieldPost.FileTree
import FieldPost.Moment

/-!
Downloaded form definitions. Whether the instances of a form are sent and deleted
without asking may be set by the form; a form that leaves it open follows the settings.
The paths of its definition and of its media are texts, so those that are not UTF-8 are left out.
-/

namespace FieldPost

structure Form where
  id : Int := 0
  formId : String
  version : Option String
  displayName : String
  path : String
  mediaPath : Option String
  autoSend : Option Bool
  autoDelete : Option Bool
  added : Moment
deriving DecidableEq, Repr

namespace Form

def requestsAutoSend (form : Form) : Bool := form.autoSend == some true

def definitionExists (form : Form) (files : FileTree) : Bool := files.isFile form.path

/-- Whether a sent instance is deleted: as its form says, else as the settings say. -/
def deletesAfterSend (form : Option Form) (setting : Bool) : Bool :=
  (form.bind (·.autoDelete)).getD setting

end Form

end FieldPost
