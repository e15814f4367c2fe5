import FieldPost.Form
import FieldPost.Instance

/-!
What is shown to the user: an empty instance of a form, or a saved one at some place in it.
-/

namespace FieldPost

inductive JumpTarget
  | beginning
  | lastPosition
deriving DecidableEq, Repr

inductive Launch
  | blank (form : Form)
  | resume (filled : Instance) (target : JumpTarget)
deriving DecidableEq, Repr

end FieldPost
