/-!
Numerals of a bounded unsigned number in base ten or sixteen, read with the three ways in which
that can fail. One plus sign may stand in front. The number grows digit by digit, so
a numeral that is too large and also holds a stray character fails for whichever is
met first.
-/

namespace FieldPost.Text.Numeral

inductive Problem
  | empty
  | strayDigit
  | tooLarge
deriving DecidableEq, Repr

def Problem.message : Problem → String
  | .empty => "cannot parse integer from empty string"
  | .strayDigit => "invalid digit found in string"
  | .tooLarge => "number too large to fit in target type"

/-- The value of a digit in base ten or, with letters of either case, sixteen. -/
def digit? (base : Nat) (char : Char) : Option Nat :=
  let value :=
    if '0' ≤ char ∧ char ≤ '9' then some (char.toNat - '0'.toNat)
    else if 'a' ≤ char ∧ char ≤ 'f' then some (char.toNat - 'a'.toNat + 10)
    else if 'A' ≤ char ∧ char ≤ 'F' then some (char.toNat - 'A'.toNat + 10)
    else none
  value.filter (· < base)

def readDigits (base limit : Nat) : (value : Nat) → List Char → Except Problem Nat
  | value, [] => .ok value
  | value, char :: rest =>
      match digit? base char with
      | none => .error .strayDigit
      | some digit =>
          if limit < value * base + digit then .error .tooLarge
          else readDigits base limit (value * base + digit) rest

/-- The number at most `limit` that the numeral stands for. -/
def read (base limit : Nat) : List Char → Except Problem Nat
  | [] => .error .empty
  | ['+'] => .error .strayDigit
  | '+' :: digits => readDigits base limit 0 digits
  | digits => readDigits base limit 0 digits

def padded (width value : Nat) : String :=
  let digits := toString value
  String.ofList (List.replicate (width - digits.length) '0') ++ digits

end FieldPost.Text.Numeral
