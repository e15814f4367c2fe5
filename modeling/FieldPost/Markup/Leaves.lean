import FieldPost.Markup.Event
import FieldPost.Markup.Reference
import FieldPost.Text.Blank

/-!
The fields of a filled-in form: the elements without elements in them, the outermost aside, with
their names and their trimmed text, in the order in which they end. Comments and quoted sections
add nothing to a text.
-/

namespace FieldPost.Markup

open FieldPost.Text

inductive LeafProblem
  | reference (problem : ReferenceProblem)
  | markup (fault : Fault)
deriving DecidableEq, Repr

def LeafProblem.message : LeafProblem → String
  | .reference problem => problem.message
  | .markup fault => fault.message

structure Open where
  name : List Char
  text : List Char := []
  hasChildren : Bool := false
deriving DecidableEq, Repr

abbrev Field := List Char × List Char

structure LeafState where
  openElements : List Open := []
  fields : List Field := []
deriving DecidableEq, Repr

namespace LeafState

/-- The innermost open element has an element in it. -/
def markParent (state : LeafState) : LeafState :=
  match state.openElements with
  | [] => state
  | parent :: rest => { state with openElements := { parent with hasChildren := true } :: rest }

/-- Text belongs to the innermost open element, and outside all elements to none. -/
def addText (state : LeafState) (text : List Char) : LeafState :=
  match state.openElements with
  | [] => state
  | current :: rest =>
      { state with openElements := { current with text := current.text ++ text } :: rest }

def addField (state : LeafState) (field : Field) : LeafState :=
  { state with fields := state.fields ++ [field] }

def step (state : LeafState) : Event → Except LeafProblem LeafState
  | .start name =>
      let marked := state.markParent
      .ok { marked with openElements := { name := localName name } :: marked.openElements }
  | .empty name =>
      if state.openElements.isEmpty then .ok state
      else .ok (state.markParent.addField (localName name, []))
  | .text chars => .ok (state.addText chars)
  | .reference content =>
      if state.openElements.isEmpty then .ok state
      else match resolve content with
        | .ok text => .ok (state.addText text)
        | .error problem => .error (.reference problem)
  | .finish _ =>
      match state.openElements with
      | [] => .ok state
      | current :: rest =>
          let closed : LeafState := { state with openElements := rest }
          if current.hasChildren || rest.isEmpty then .ok closed
          else .ok (closed.addField (current.name, trim current.text))

def run (state : LeafState) : List Event → Except LeafProblem LeafState
  | [] => .ok state
  | event :: rest => do run (← state.step event) rest

end LeafState

def leafFields (text : List Char) : Except LeafProblem (List Field) := do
  let (events, fault) := events text
  let state ← ({} : LeafState).run events
  match fault with
  | some fault => .error (.markup fault)
  | none => .ok state.fields

def leafValues (text : String) : Except LeafProblem (List (String × String)) :=
  (leafFields text.toList).map fun fields =>
    fields.map fun field => (String.ofList field.1, String.ofList field.2)

end FieldPost.Markup
