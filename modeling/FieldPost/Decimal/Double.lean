/-!
Numbers with 53 significant bits, the finite doubles, in exact arithmetic: rounding a
quotient to the nearest one, ties to even, and the shortest decimal that rounds back to
a given one. No machine float is involved.
-/

namespace FieldPost.Decimal

/-- The value `significand * 2 ^ exponent`. The significand has 53 bits, or fewer when the
exponent is the smallest one. -/
structure Double where
  significand : Nat
  exponent : Int
deriving DecidableEq, Repr

namespace Double

/-- The least significand that has 53 bits. -/
def leastFull : Nat := 0x10000000000000

def zero : Double := ⟨0, -1074⟩

def isZero (value : Double) : Bool := value.significand == 0

/-- The quotient rounded to the nearest whole number, a half to the even neighbour. -/
def roundDiv (numerator denominator : Nat) : Nat :=
  let quotient := numerator / denominator
  let twice := 2 * (numerator % denominator)
  if twice < denominator then quotient
  else if denominator < twice then quotient + 1
  else if quotient % 2 = 0 then quotient else quotient + 1

/-- The double at the given exponent nearest to a quotient; a carry moves the exponent. -/
def atExponent (numerator denominator : Nat) (exponent : Int) : Double :=
  let significand :=
    if exponent < 0 then roundDiv (numerator * Nat.pow 2 exponent.natAbs) denominator
    else roundDiv numerator (denominator * Nat.pow 2 exponent.natAbs)
  if significand = 2 * leastFull then ⟨leastFull, exponent + 1⟩ else ⟨significand, exponent⟩

/-- The exponent at which a quotient has 53 bits, and not below the smallest one. -/
def fittingExponent (numerator denominator : Nat) : Int :=
  let guess : Int := (numerator.log2 : Int) - denominator.log2 - 53
  let large :=
    if guess < 0 then 2 * leastFull * denominator ≤ numerator * Nat.pow 2 guess.natAbs
    else 2 * leastFull * denominator * Nat.pow 2 guess.natAbs ≤ numerator
  max (-1074) (if large then guess + 1 else guess)

/-- The double nearest to a quotient, or nothing when it is past the largest one. -/
def ofQuotient? (numerator denominator : Nat) : Option Double :=
  if numerator = 0 then some zero
  else
    let value := atExponent numerator denominator (fittingExponent numerator denominator)
    if 971 < value.exponent then none else some value

def numerator (value : Double) : Nat :=
  if value.exponent < 0 then value.significand
  else value.significand * Nat.pow 2 value.exponent.natAbs

def denominator (value : Double) : Nat :=
  if value.exponent < 0 then Nat.pow 2 value.exponent.natAbs else 1

def mul? (left right : Double) : Option Double :=
  ofQuotient? (left.numerator * right.numerator) (left.denominator * right.denominator)

def div (left right : Double) : Double :=
  (ofQuotient? (left.numerator * right.denominator) (left.denominator * right.numerator)).getD zero

/-- The double nearest to a power of ten that has one. -/
def powerOfTen (exponent : Nat) : Double := (ofQuotient? (Nat.pow 10 exponent) 1).getD zero

/-- A decimal `digits * 10 ^ exponent`. -/
structure Digits where
  digits : Nat
  exponent : Int
deriving DecidableEq, Repr

/-- The same decimal, one digit shorter, when its last digit is a zero. -/
def Digits.shortened (decimal : Digits) : Digits :=
  if decimal.digits % 10 = 0 then ⟨decimal.digits / 10, decimal.exponent + 1⟩ else decimal

/-- The power of ten at or below a positive value. -/
def decimalExponent (value : Double) : Int :=
  ((toString (value.numerator * Nat.pow 10 400 / value.denominator)).length : Int) - 401

/-- A decimal rounds to the value: it lies between the halfway points to the neighbours, which
count when the significand is even. Both sides are multiplied by a common factor. -/
def roundsTo (value : Double) (decimal : Digits) : Bool :=
  let quarter := value.significand == leastFull && value.exponent != -1074
  let low := if quarter then 4 * value.significand - 1 else 4 * value.significand - 2
  let high := 4 * value.significand + 2
  let up := Nat.pow 10 decimal.exponent.toNat * Nat.pow 2 (2 - value.exponent).toNat
  let down := Nat.pow 10 (-decimal.exponent).toNat * Nat.pow 2 (value.exponent - 2).toNat
  let scaled := decimal.digits * up
  if value.significand % 2 = 0 then low * down ≤ scaled && scaled ≤ high * down
  else low * down < scaled && scaled < high * down

/-- Among the two decimals with `count` digits around the value, the nearer that rounds to it. -/
def withDigits? (value : Double) (count : Nat) : Option Digits :=
  let exponent := value.decimalExponent - count + 1
  let top := value.numerator * Nat.pow 10 (-exponent).toNat
  let bottom := value.denominator * Nat.pow 10 exponent.toNat
  let below := top / bottom
  let nearest := roundDiv top bottom
  let other := if nearest = below then below + 1 else below
  if roundsTo value ⟨nearest, exponent⟩ then some ⟨nearest, exponent⟩
  else if roundsTo value ⟨other, exponent⟩ then some ⟨other, exponent⟩
  else none

/-- The decimal with the fewest digits that rounds to the value. One with `count` digits that
was carried up to the next power of ten may end in a zero, which is no digit of it. -/
def shortest (value : Double) : Digits :=
  (((List.range 17).findSome? fun below => value.withDigits? (below + 1)).getD ⟨0, 0⟩).shortened

end Double

end FieldPost.Decimal
