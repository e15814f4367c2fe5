import FieldPost.FileTree

/-!
The storage that instances lie on. It is mounted while its directory is there and files can be
created in it; while it is being moved elsewhere, nothing is sent.
-/

namespace FieldPost

structure Storage where
  root : String
  migrating : Bool := false
deriving DecidableEq, Repr

def Storage.isMounted (storage : Storage) (files : FileTree) : Bool :=
  files.isWritableDirectory storage.root

end FieldPost
