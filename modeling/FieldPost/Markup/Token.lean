import FieldPost.Text.Cut

/-!
The tokens of a marked-up text. Text runs up to the next opening bracket or ampersand. A tag
ends at the first closing bracket outside quotes. Comments, processing instructions,
quoted sections and document types are told apart by how they begin; what they hold is not
looked at. The first place that is no token ends the list with a fault.
-/

namespace FieldPost.Markup

open FieldPost.Text

inductive Fault
  | tagNotClosed
  | instructionNotClosed
  | commentNotClosed
  | sectionNotClosed
  | doctypeNotClosed
  | unknownMarkup
  | doctypeNotNamed
  | referenceNotClosed
  | mismatch (expected found : List Char)
  | unopened (found : List Char)
deriving DecidableEq, Repr

inductive Token
  | text (chars : List Char)
  | reference (content : List Char)
  | openTag (content : List Char)
  | emptyTag (content : List Char)
  | closeTag (content : List Char)
  | skipped
  | fault (fault : Fault)
deriving DecidableEq, Repr

def isSpace (char : Char) : Bool :=
  char == ' ' || char == '\t' || char == '\r' || char == '\n'

/-- The text before the first closing bracket outside quotes, and the text after it. -/
def cutTag : (quote : Option Char) → List Char → Option (List Char × List Char)
  | _, [] => none
  | none, char :: rest =>
      if char = '>' then some ([], rest)
      else
        (cutTag (if char = '"' ∨ char = '\'' then some char else none) rest).map
          fun sides => (char :: sides.1, sides.2)
  | some quote, char :: rest =>
      (cutTag (if char = quote then none else some quote) rest).map
        fun sides => (char :: sides.1, sides.2)

/-- The text before the closing bracket that answers no opening one, and the text after it. -/
def cutBalanced : (depth : Nat) → List Char → Option (List Char × List Char)
  | _, [] => none
  | depth, char :: rest =>
      if char = '>' then
        match depth with
        | 0 => some ([], rest)
        | depth + 1 => (cutBalanced depth rest).map fun sides => (char :: sides.1, sides.2)
      else
        (cutBalanced (if char = '<' then depth + 1 else depth) rest).map
          fun sides => (char :: sides.1, sides.2)

def fail (fault : Fault) : Token × List Char := (.fault fault, [])

/-- A tag that is no end tag. A slash at its end makes it an empty element. -/
def nextTag (rest : List Char) : Token × List Char :=
  match cutTag none rest with
  | none => fail .tagNotClosed
  | some (content, rest) =>
      if content.getLast? = some '/' then (.emptyTag content.dropLast, rest)
      else (.openTag content, rest)

def nextEndTag (rest : List Char) : Token × List Char :=
  match cutTag none rest with
  | none => fail .tagNotClosed
  | some (content, rest) => (.closeTag content, rest)

/-- An instruction from its question mark on, which is not the one that ends it. -/
def nextInstruction (rest : List Char) : Token × List Char :=
  match cutAt "?>".toList rest with
  | some (_ :: _, rest) => (.skipped, rest)
  | _ => fail .instructionNotClosed

def nextSection (rest : List Char) : Token × List Char :=
  match dropMark? "[CDATA[".toList rest, cutAt "]]>".toList rest with
  | some _, some (_, rest) => (.skipped, rest)
  | _, _ => fail .sectionNotClosed

/-- The hyphens that begin a comment are not part of its end. -/
def nextComment (rest : List Char) : Token × List Char :=
  match dropMark? "--".toList rest with
  | none => fail .commentNotClosed
  | some body =>
      match cutAt "-->".toList body with
      | some (_, rest) => (.skipped, rest)
      | none => fail .commentNotClosed

def nextDoctype (rest : List Char) : Token × List Char :=
  match cutBalanced 0 rest with
  | none => fail .doctypeNotClosed
  | some (content, rest) =>
      match dropMark? "doctype".toList (content.map Char.toLower) with
      | none => fail .doctypeNotClosed
      | some named => if named.all isSpace then fail .doctypeNotNamed else (.skipped, rest)

def nextDeclaration (rest : List Char) : Token × List Char :=
  match rest.head? with
  | some '[' => nextSection rest
  | some '-' => nextComment rest
  | some 'D' => nextDoctype rest
  | some 'd' => nextDoctype rest
  | _ => fail .unknownMarkup

/-- What begins with an opening bracket, which is already taken. -/
def nextMarkup : List Char → Token × List Char
  | [] => fail .tagNotClosed
  | '!' :: rest => nextDeclaration rest
  | '/' :: rest => nextEndTag rest
  | '?' :: rest => nextInstruction ('?' :: rest)
  | rest => nextTag rest

def endsReference (char : Char) : Bool := char == ';' || char == '&' || char == '<'

/-- What begins with an ampersand, which is already taken. -/
def nextReference (rest : List Char) : Token × List Char :=
  match rest.dropWhile fun char => !endsReference char with
  | ';' :: after => (.reference (rest.takeWhile fun char => !endsReference char), after)
  | _ => fail .referenceNotClosed

def endsText (char : Char) : Bool := char == '<' || char == '&'

/-- The token that begins with a character, and what follows it. -/
def next (first : Char) (rest : List Char) : Token × List Char :=
  if first = '<' then nextMarkup rest
  else if first = '&' then nextReference rest
  else
    (.text (first :: rest.takeWhile fun char => !endsText char),
      rest.dropWhile fun char => !endsText char)

/-- At most `fuel` tokens. -/
def scanFrom : (fuel : Nat) → List Char → List Token
  | 0, _ => []
  | _ + 1, [] => []
  | fuel + 1, first :: rest => (next first rest).1 :: scanFrom fuel (next first rest).2

/-- One byte order mark at the beginning does not belong to the text. -/
def withoutMark : List Char → List Char
  | '\uFEFF' :: rest => rest
  | text => text

/-- The tokens of a text. Each takes at least one character, so its length is fuel enough. -/
def scan (text : List Char) : List Token :=
  scanFrom (withoutMark text).length (withoutMark text)

end FieldPost.Markup
