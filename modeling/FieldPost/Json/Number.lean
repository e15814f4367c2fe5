import FieldPost.Json.Value
import FieldPost.Text.Numeral

/-!
Numbers in JSON texts. A numeral with more digits than 64 bits hold, with a fraction
or with an exponent is a double: its leading digits are rounded, then scaled by a rounded
power of ten. A double is written with the fewest digits that read back, positionally
between a hundred-thousandth and ten quadrillion.
-/

namespace FieldPost

open FieldPost.Decimal FieldPost.Text

/-- Where reading a JSON text failed: at its end, or at something that does not belong there. -/
inductive JsonFault
  | ended
  | misplaced
deriving DecidableEq, Repr

namespace JsonNumber

def wholeLimit : Nat := 0xFFFFFFFFFFFFFFFF

/-- Leading digits as one number, and the power of ten they stand at. -/
structure Scaled where
  significand : Nat := 0
  exponent : Int := 0
deriving DecidableEq, Repr

def digitValue (char : Char) : Nat := (Numeral.digit? 10 char).getD 0

/-- Digits before the point: once the number is full, each further one is a power of ten. -/
def Scaled.pushWhole (scaled : Scaled) : List Char → Scaled
  | [] => scaled
  | char :: rest =>
      let grown := scaled.significand * 10 + digitValue char
      if wholeLimit < grown then { scaled with exponent := scaled.exponent + (rest.length + 1) }
      else pushWhole { scaled with significand := grown } rest

/-- Digits after the point: those that do not fit are dropped. -/
def Scaled.pushFraction (scaled : Scaled) : List Char → Scaled
  | [] => scaled
  | char :: rest =>
      let grown := scaled.significand * 10 + digitValue char
      if wholeLimit < grown then scaled
      else pushFraction ⟨grown, scaled.exponent - 1⟩ rest

/-- Divides by powers of ten until the exponent is within reach, then scales once. -/
def scale (value : Double) (exponent : Int) : Option Double :=
  if within : exponent.natAbs ≤ 308 then
    if exponent < 0 then some (value.div (Double.powerOfTen exponent.natAbs))
    else value.mul? (Double.powerOfTen exponent.natAbs)
  else if value.isZero then some value
  else if 0 ≤ exponent then none
  else scale (value.div (Double.powerOfTen 308)) (exponent + 308)
termination_by exponent.natAbs
decreasing_by omega

def Scaled.toDouble? (scaled : Scaled) : Option Double :=
  (Double.ofQuotient? scaled.significand 1).bind fun value => scale value scaled.exponent

def isDigit (char : Char) : Bool := (Numeral.digit? 10 char).isSome

def takeDigits (text : List Char) : Except JsonFault (List Char × List Char) :=
  let digits := text.takeWhile isDigit
  let rest := text.dropWhile isDigit
  if digits.isEmpty then .error (if rest.isEmpty then .ended else .misplaced)
  else .ok (digits, rest)

/-- The digits before the point; a zero stands alone. -/
def takeWhole (text : List Char) : Except JsonFault (List Char × List Char) := do
  let (digits, rest) ← takeDigits text
  if digits.head? = some '0' ∧ 1 < digits.length then .error .misplaced
  else .ok (digits, rest)

def takeFraction : List Char → Except JsonFault (Option (List Char) × List Char)
  | '.' :: rest => (takeDigits rest).map fun taken => (some taken.1, taken.2)
  | text => .ok (none, text)

def takeExponent : List Char → Except JsonFault (Option (Bool × List Char) × List Char)
  | char :: rest =>
      if char = 'e' ∨ char = 'E' then
        match rest with
        | '-' :: digits => (takeDigits digits).map fun taken => (some (true, taken.1), taken.2)
        | '+' :: digits => (takeDigits digits).map fun taken => (some (false, taken.1), taken.2)
        | digits => (takeDigits digits).map fun taken => (some (false, taken.1), taken.2)
      else .ok (none, char :: rest)
  | [] => .ok (none, [])

/-- The largest exponent that is counted with; past it a number is zero or out of range. -/
def exponentLimit : Nat := 0x7FFFFFFF

def magnitude? (leading : List Char) (fraction : Option (List Char))
    (exponent : Option (Bool × List Char)) : Option Double :=
  let scaled := ((({} : Scaled).pushWhole leading).pushFraction (fraction.getD []))
  match exponent with
  | none => scaled.toDouble?
  | some (down, digits) =>
      let size := digits.foldl (fun value char => value * 10 + digitValue char) 0
      if exponentLimit < size then
        if scaled.significand = 0 ∨ down then some Double.zero else none
      else
        { scaled with exponent := if down then scaled.exponent - size else scaled.exponent + size
          }.toDouble?

/-- A whole number that is kept as such. A negative zero is a double. -/
def whole? (negative : Bool) (digits : List Char) : Option JsonNumber :=
  let value := digits.foldl (fun value char => value * 10 + digitValue char) 0
  if negative then
    if 0 < value ∧ value ≤ 0x8000000000000000 then some (.whole (-(value : Int))) else none
  else if value ≤ wholeLimit then some (.whole value) else none

/-- A number after its sign, and what follows it. -/
def readUnsigned (negative : Bool) (text : List Char) :
    Except JsonFault (JsonNumber × List Char) := do
  let (leading, rest) ← takeWhole text
  let (fraction, rest) ← takeFraction rest
  let (exponent, rest) ← takeExponent rest
  let kept := if fraction.isNone ∧ exponent.isNone then whole? negative leading else none
  match kept, magnitude? leading fraction exponent with
  | some number, _ => .ok (number, rest)
  | none, some magnitude => .ok (.double negative magnitude, rest)
  | none, none => .error .misplaced

def read : List Char → Except JsonFault (JsonNumber × List Char)
  | '-' :: text => readUnsigned true text
  | text => readUnsigned false text

/-- Where positional writing ends and an exponent is written. -/
structure Style where
  lowestPoint : Int
  highestPoint : Int

/-- From five zeros after the point up to sixteen digits before it. -/
def style : Style := ⟨-4, 16⟩

def zeros (count : Int) : String := String.ofList (List.replicate count.toNat '0')

def doubleText (value : Double) : String :=
  if value.isZero then "0.0"
  else
    let shortest := value.shortest
    let digits := toString shortest.digits
    let point : Int := digits.length + shortest.exponent
    if 0 ≤ shortest.exponent ∧ point ≤ style.highestPoint then
      digits ++ zeros shortest.exponent ++ ".0"
    else if 0 < point ∧ point ≤ style.highestPoint then
      String.ofList (digits.toList.take point.toNat) ++ "." ++
        String.ofList (digits.toList.drop point.toNat)
    else if style.lowestPoint ≤ point ∧ point ≤ 0 then "0." ++ zeros (-point) ++ digits
    else
      let power := "e" ++ toString (point - 1)
      match digits.toList with
      | [only] => String.ofList [only] ++ power
      | first :: more => String.ofList [first] ++ "." ++ String.ofList more ++ power
      | [] => power

def text : JsonNumber → String
  | .whole value => toString value
  | .double negative magnitude => (if negative then "-" else "") ++ doubleText magnitude

end JsonNumber

end FieldPost
