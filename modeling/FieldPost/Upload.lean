import FieldPost.FileTree
import FieldPost.Instance
import FieldPost.Upload.Error

/-!
Uploaders. One knows where an instance goes, and sends it there. Whatever lies on the far side
is a state that only sending changes; the files on this side are read and never changed.
-/

namespace FieldPost

open FieldPost.Text

/-- Sending answers with the message of the far side, if it has one. -/
structure Uploader (σ : Type) where
  destination : Instance → Option String → Except UploadError String
  send : FileTree → Instance → String → σ → Except UploadError (Option String) × σ

/-- An uploader whose far side is a part of a larger one. -/
def Uploader.within {σ τ : Type} (uploader : Uploader σ) (part : τ → σ) (replace : σ → τ → τ) :
    Uploader τ where
  destination := uploader.destination
  send := fun files filled url whole =>
    let sent := uploader.send files filled url (part whole)
    (sent.1, replace sent.2 whole)

end FieldPost
