import FieldPost.Http.Body
import FieldPost.Http.Part
import FieldPost.Http.Target
import FieldPost.Json.Printer

/-!
Requests and their answers. The other side is a list of replies that are used up one by one;
after the last it accepts everything. A peer that cannot be reached receives nothing.

An answer may lead elsewhere, and the client follows it with a request that it makes of itself. What
comes of the first request is then what comes of the last. The peer keeps the requests that it was
sent and, apart from them, those that followed. The headers that a client takes along are left
out, and so is the way in which it resolves an address that is relative.
-/

namespace FieldPost.Http

open FieldPost.Text

inductive Content
  | form (parts : List Part)
  | json (value : Json)
deriving Repr

structure Request where
  url : String
  authorization : List String
  formVersion : Option String
  content : Content
deriving Repr

/-- No answer at all, or one whose body may have been cut off. An answer has a location when it
names an address that can be asked for. -/
inductive Reply
  | lost
  | answer (status : Nat) (contentType : Option String) (body : Bytes) (whole : Bool)
      (location : Option Url := none)
deriving DecidableEq, Repr

/-- What comes of a request for the one who made it. -/
inductive Response
  | lost
  | astray (reason : String)
  | answer (status : Nat) (contentType : Option String) (body : Bytes) (whole : Bool)
deriving DecidableEq, Repr

/-- A request that a client makes of itself. Without a content it asks, with one it sends. -/
structure Hop where
  url : Url
  content : Option Content
deriving Repr

/-- What goes elsewhere after such an answer. After some it is nothing, whatever was sent; after others
it is the same again, except for a form, which has been streamed and is gone. -/
def contentElsewhere (status : Nat) (sent : Option Content) : Option (Option Content) :=
  if status = 301 ∨ status = 302 ∨ status = 303 then some none
  else if status = 307 ∨ status = 308 then
    match sent with
    | some (.form _) => none
    | _ => some sent
  else none

namespace Reply

def response : Reply → Response
  | .lost => .lost
  | .answer status contentType body whole _ => .answer status contentType body whole

/-- Where a reply leads a client that had sent this. -/
def hop? (sent : Option Content) : Reply → Option Hop
  | .answer status _ _ _ (some url) => (contentElsewhere status sent).map fun content => ⟨url, content⟩
  | _ => none

end Reply

/-- A client follows over these schemes only. -/
def Hop.isUsable (hop : Hop) : Bool :=
  hop.url.scheme == "http".toList || hop.url.scheme == "https".toList

/-- What came of a request, the requests that followed it, and the replies that are left. -/
structure Trail where
  response : Response
  hops : List Hop
  replies : List Reply
deriving Repr

def Trail.after (hop : Hop) (trail : Trail) : Trail := { trail with hops := hop :: trail.hops }

/-- The most requests that follow one. -/
def hopLimit : Nat := 10

namespace Peer

/-- What is answered when nothing else is agreed. -/
def accepting : Reply := .answer 201 none [] true

end Peer

/-- Follows the answers to what was sent to a place, with so many requests at most. -/
def Trail.follow : Nat → String → Option Content → List Reply → Trail
  | left, place, sent, replies =>
      let reply := replies.headD Peer.accepting
      match reply.hop? sent with
      | none => ⟨reply.response, [], replies.tail⟩
      | some hop =>
          match left with
          | 0 => ⟨.astray ("error following redirect for url (" ++ place ++ ")"), [], replies.tail⟩
          | left + 1 =>
              if hop.isUsable then
                (follow left hop.url.text hop.content replies.tail).after hop
              else ⟨.astray (TargetProblem.unusable hop.url.text).message, [], replies.tail⟩

structure Peer where
  reachable : Bool := true
  replies : List Reply := []
  received : List Request := []
  followed : List Hop := []
deriving Repr

namespace Peer

def exchange (peer : Peer) (request : Request) : Response × Peer :=
  if peer.reachable then
    let trail := Trail.follow hopLimit request.url (some request.content) peer.replies
    (trail.response,
      { peer with
        replies := trail.replies
        received := peer.received ++ [request]
        followed := peer.followed ++ trail.hops })
  else (.lost, peer)

end Peer

/-- The text of an answer; a body that was cut off counts as empty. -/
def answerText (contentType : Option String) (body : Bytes) (whole : Bool) : String :=
  if whole then bodyText contentType body else ""

end FieldPost.Http
