import FieldPost.Json.Token

/-!
Reading a JSON text: one value with nothing after it. The reader goes through the tokens
with a stack of the containers that are open, so the place of the first fault decides which
fault it is. At most 127 containers may be open at once. Of two entries with one key the
later counts.
-/

namespace FieldPost.JsonReader

/-- A container that is still open, with what it holds so far, newest item first. An object
whose entry is under way also holds that entry's key. -/
inductive Frame
  | array (items : List Json)
  | object (entries : List (String × Json)) (key : String)
deriving Repr

inductive Wanted
  | value
  | itemOrClose
  | keyOrClose
  | key
  | colon
  | commaOrClose
  | nothing
deriving DecidableEq, Repr

structure State where
  frames : List Frame := []
  wanted : Wanted := .value
  found : Json := .null
deriving Repr

def depthLimit : Nat := 127

/-- A whole value goes into the innermost open container. -/
def State.finish (state : State) (value : Json) : State :=
  match state.frames with
  | [] => { state with wanted := .nothing, found := value }
  | .array items :: frames =>
      { state with frames := .array (value :: items) :: frames, wanted := .commaOrClose }
  | .object entries key :: frames =>
      { state with
        frames := .object (Json.putEntry key value entries) key :: frames
        wanted := .commaOrClose }

def State.enter (state : State) (frame : Frame) (wanted : Wanted) : Except JsonFault State :=
  if state.frames.length < depthLimit then
    .ok { state with frames := frame :: state.frames, wanted := wanted }
  else .error .misplaced

def State.begin (state : State) : JsonToken → Except JsonFault State
  | .scalar value => .ok (state.finish value)
  | .string value => .ok (state.finish (.string value))
  | .openArray => state.enter (.array []) .itemOrClose
  | .openObject => state.enter (.object [] "") .keyOrClose
  | .broken _ fault => .error fault
  | _ => .error .misplaced

/-- Closes the innermost container, which must be of the same kind as the bracket. -/
def State.close (state : State) : JsonToken → Except JsonFault State
  | .closeArray =>
      match state.frames with
      | .array items :: frames => .ok ({ state with frames := frames }.finish (.array items.reverse))
      | _ => .error .misplaced
  | .closeObject =>
      match state.frames with
      | .object entries _ :: frames =>
          .ok ({ state with frames := frames }.finish (.object entries))
      | _ => .error .misplaced
  | _ => .error .misplaced

def State.name (state : State) (key : String) : Except JsonFault State :=
  match state.frames with
  | .object entries _ :: frames =>
      .ok { state with frames := .object entries key :: frames, wanted := .colon }
  | _ => .error .misplaced

def State.continue (state : State) : Except JsonFault State :=
  match state.frames with
  | .array _ :: _ => .ok { state with wanted := .value }
  | .object _ _ :: _ => .ok { state with wanted := .key }
  | [] => .error .misplaced

def State.step (state : State) (token : JsonToken) : Except JsonFault State :=
  match state.wanted, token with
  | .value, token => state.begin token
  | .itemOrClose, .closeArray => state.close .closeArray
  | .itemOrClose, token => state.begin token
  | .keyOrClose, .closeObject => state.close .closeObject
  | .keyOrClose, .string key => state.name key
  | .keyOrClose, .broken true fault => .error fault
  | .key, .string key => state.name key
  | .key, .broken true fault => .error fault
  | .colon, .colon => .ok { state with wanted := .value }
  | .commaOrClose, .comma => state.continue
  | .commaOrClose, .closeArray => state.close .closeArray
  | .commaOrClose, .closeObject => state.close .closeObject
  | _, _ => .error .misplaced

/-- The value after the last token, if it is whole. -/
def State.result (state : State) : Except JsonFault Json :=
  if state.wanted = .nothing then .ok state.found else .error .ended

def run (state : State) : List JsonToken → Except JsonFault State
  | [] => .ok state
  | token :: rest => do run (← state.step token) rest

end JsonReader

namespace Json

def ofText (text : String) : Except JsonFault Json := do
  (← JsonReader.run {} (JsonToken.scan text.toList)).result

end Json

end FieldPost
