import FieldPost.Markup.Event
import FieldPost.Markup.Reference
import FieldPost.Text.Blank

/-!
The message in a server's response: the text from the first start tag named message up to
the next end tag of that name. Whatever follows, and whatever is wrong there, does not matter;
a fault before the end tag ends the message too.
-/

namespace FieldPost.Markup

open FieldPost.Text

def isMessage (name : List Char) : Bool := localName name == "message".toList

/-- The text of the message from here on, `inside` telling whether it has begun. -/
def messageText : (inside : Bool) → List Event → List Char
  | _, [] => []
  | inside, event :: rest =>
      match event with
      | .start name => messageText (inside || isMessage name) rest
      | .finish name => if isMessage name then [] else messageText inside rest
      | .text chars => (if inside then chars else []) ++ messageText inside rest
      | .reference content =>
          let resolved := match resolve content with
            | .ok text => text
            | .error _ => []
          (if inside then resolved else []) ++ messageText inside rest
      | .empty _ => messageText inside rest

def message? (body : List Char) : Option (List Char) :=
  let message := trim (messageText false (events body).1)
  if message.isEmpty then none else some message

def serverMessage? (body : String) : Option String := (message? body.toList).map String.ofList

end FieldPost.Markup
