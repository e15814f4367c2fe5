import FieldPost.Text.Cut

/-!
Links to spreadsheets. The identifier of a sheet is the longest run of letters, digits,
underscores and hyphens right after the fixed beginning of such a link; a link without
one is no spreadsheet.
-/

namespace FieldPost.SheetLink

open FieldPost.Text

def base : String := "https://docs.google.com/spreadsheets/d/"

def isIdChar (char : Char) : Bool := char.isAlphanum || char == '_' || char == '-'

def id? (url : String) : Option String :=
  match dropMark? base.toList url.toList with
  | none => none
  | some rest =>
      let id := rest.takeWhile isIdChar
      if id.isEmpty then none else some (String.ofList id)

def isSheet (url : String) : Bool := (id? url).isSome

/-- Where a row is appended to the sheet with this identifier. -/
def appendUrl (id : String) : String :=
  "https://sheets.googleapis.com/v4/spreadsheets/" ++ id ++
    "/values/A1:append?valueInputOption=USER_ENTERED"

end FieldPost.SheetLink
