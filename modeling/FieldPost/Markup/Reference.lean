import FieldPost.Text.Numeral

/-!
References in text: to a character by its number, or to one of five by name. A name that is
not known is kept as it was written.
-/

namespace FieldPost.Markup

open FieldPost.Text

inductive ReferenceProblem
  | badNumber (content : List Char) (problem : Numeral.Problem)
  | noCharacter (content : List Char)
deriving DecidableEq, Repr

def ReferenceProblem.message : ReferenceProblem → String
  | .badNumber content problem =>
      "invalid character reference '&" ++ String.ofList content ++ ";': " ++ problem.message
  | .noCharacter content => "invalid character reference '&" ++ String.ofList content ++ ";'"

def named? (name : List Char) : Option Char :=
  [("lt".toList, '<'), ("gt".toList, '>'), ("amp".toList, '&'), ("apos".toList, '\''),
   ("quot".toList, '"')].lookup name

def numberLimit : Nat := 0xFFFFFFFF

/-- The number after the sharp sign, in base sixteen after an `x`. -/
def readNumber : List Char → Except Numeral.Problem Nat
  | 'x' :: digits => Numeral.read 16 numberLimit digits
  | 'X' :: digits => Numeral.read 16 numberLimit digits
  | digits => Numeral.read 10 numberLimit digits

def resolve (content : List Char) : Except ReferenceProblem (List Char) :=
  match content with
  | '#' :: number =>
      match readNumber number with
      | .error problem => .error (.badNumber content problem)
      | .ok code =>
          if code.isValidChar then .ok [Char.ofNat code] else .error (.noCharacter content)
  | _ =>
      match named? content with
      | some char => .ok [char]
      | none => .ok ('&' :: content ++ [';'])

end FieldPost.Markup
