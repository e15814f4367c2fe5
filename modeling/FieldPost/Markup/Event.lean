import FieldPost.Markup.Token

/-!
Marked-up text as events, with every end tag held against the tag that it closes. Tags that are
still open when the text ends are no fault.
-/

namespace FieldPost.Markup

open FieldPost.Text

def Fault.message : Fault → String
  | .tagNotClosed => "syntax error: tag not closed: `>` not found before end of input"
  | .instructionNotClosed =>
      "syntax error: processing instruction or xml declaration not closed: `?>` not found " ++
        "before end of input"
  | .commentNotClosed => "syntax error: comment not closed: `-->` not found before end of input"
  | .sectionNotClosed => "syntax error: CDATA not closed: `]]>` not found before end of input"
  | .doctypeNotClosed => "syntax error: DOCTYPE not closed: `>` not found before end of input"
  | .unknownMarkup => "syntax error: unknown or missed symbol in markup"
  | .doctypeNotNamed =>
      "ill-formed document: `<!DOCTYPE>` declaration does not contain a name of a document type"
  | .referenceNotClosed =>
      "ill-formed document: entity or character reference not closed: `;` not found before " ++
        "end of input"
  | .mismatch expected found =>
      "ill-formed document: expected `</" ++ String.ofList expected ++ ">`, but `</" ++
        String.ofList found ++ ">` was found"
  | .unopened found =>
      "ill-formed document: close tag `</" ++ String.ofList found ++
        ">` does not match any open tag"

inductive Event
  | start (name : List Char)
  | empty (name : List Char)
  | finish (name : List Char)
  | text (chars : List Char)
  | reference (content : List Char)
deriving DecidableEq, Repr

def tagName (content : List Char) : List Char := content.takeWhile fun char => !isSpace char

/-- An end tag may have space after its name. One that holds nothing but space keeps it. -/
def endName (content : List Char) : List Char :=
  if content.all isSpace then content else (content.reverse.dropWhile isSpace).reverse

def localName (name : List Char) : List Char :=
  match cutAtChar ':' name with
  | some (_, local?) => local?
  | none => name

/-- The events of tokens under the given open tags, and the fault that ends them. -/
def eventsFrom : (openNames : List (List Char)) → List Token → List Event × Option Fault
  | _, [] => ([], none)
  | openNames, token :: rest =>
      match token with
      | .text chars =>
          let after := eventsFrom openNames rest
          (.text chars :: after.1, after.2)
      | .reference content =>
          let after := eventsFrom openNames rest
          (.reference content :: after.1, after.2)
      | .openTag content =>
          let after := eventsFrom (tagName content :: openNames) rest
          (.start (tagName content) :: after.1, after.2)
      | .emptyTag content =>
          let after := eventsFrom openNames rest
          (.empty (tagName content) :: after.1, after.2)
      | .closeTag content =>
          match openNames with
          | [] => ([], some (.unopened (endName content)))
          | expected :: openNames =>
              if expected = endName content then
                let after := eventsFrom openNames rest
                (.finish expected :: after.1, after.2)
              else ([], some (.mismatch expected (endName content)))
      | .skipped => eventsFrom openNames rest
      | .fault fault => ([], some fault)

def events (text : List Char) : List Event × Option Fault := eventsFrom [] (scan text)

end FieldPost.Markup
