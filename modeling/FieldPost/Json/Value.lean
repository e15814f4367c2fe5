import FieldPost.Decimal.Double

/-!
JSON values. An object keeps its entries in the order of their keys and has at most one for
each key; putting an entry replaces the one with the same key.
-/

namespace FieldPost

/-- Whole numbers that fit 64 bits are kept as they are, all others as doubles. -/
inductive JsonNumber
  | whole (value : Int)
  | double (negative : Bool) (magnitude : Decimal.Double)
deriving DecidableEq, Repr

inductive Json
  | null
  | bool (value : Bool)
  | number (value : JsonNumber)
  | string (value : String)
  | array (items : List Json)
  | object (entries : List (String × Json))
deriving Repr

namespace Json

/-- Entries with one more, in the order of keys; an entry with the same key is replaced. -/
def putEntry (key : String) (value : Json) : List (String × Json) → List (String × Json)
  | [] => [(key, value)]
  | (other, held) :: rest =>
      if key = other then (key, value) :: rest
      else if key < other then (key, value) :: (other, held) :: rest
      else (other, held) :: putEntry key value rest

def entries : Json → List (String × Json)
  | .object entries => entries
  | _ => []

def get? (value : Json) (key : String) : Option Json := value.entries.lookup key

def string? : Json → Option String
  | .string value => some value
  | _ => none

end Json

end FieldPost
