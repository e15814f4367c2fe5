/-!
Punycode: labels of a host name with characters outside ASCII, written in ASCII. The basic
characters come first; the others follow in the order of their code points, each
as its distance from the one before in base 36 with thresholds that adapt.
-/

namespace FieldPost.Punycode

def digitChar (value : Nat) : Char :=
  if value < 26 then Char.ofNat (0x61 + value) else Char.ofNat (0x30 + value - 26)

def digitValue? (char : Char) : Option Nat :=
  if 'a' ≤ char ∧ char ≤ 'z' then some (char.toNat - 0x61)
  else if 'A' ≤ char ∧ char ≤ 'Z' then some (char.toNat - 0x41)
  else if '0' ≤ char ∧ char ≤ '9' then some (char.toNat - 0x30 + 26)
  else none

/-- From which digit value on a number goes on after its digit at this position. -/
def threshold (position bias : Nat) : Nat :=
  if position ≤ bias then 1 else if bias + 26 ≤ position then 26 else position - bias

theorem threshold_pos (position bias : Nat) : 1 ≤ threshold position bias := by
  unfold threshold
  split
  · omega
  · split <;> omega

def settle (delta position : Nat) : Nat :=
  if 455 < delta then settle (delta / 35) (position + 36)
  else position + 36 * delta / (delta + 38)
termination_by delta
decreasing_by omega

/-- The bias after a number, from its size and from how many characters there are now. -/
def adapt (delta count : Nat) (first : Bool) : Nat :=
  let delta := if first then delta / 700 else delta / 2
  settle (delta + delta / count) 0

/-- The digits of a number from the given position on. -/
def writeNumber (value bias position : Nat) : List Char :=
  let limit := threshold position bias
  if small : value < limit then [digitChar value]
  else
    digitChar (limit + (value - limit) % (36 - limit)) ::
      writeNumber ((value - limit) / (36 - limit)) bias (position + 36)
termination_by value
decreasing_by
  have := threshold_pos position bias
  have : threshold position bias ≤ value := Nat.le_of_not_lt small
  exact Nat.lt_of_le_of_lt (Nat.div_le_self _ _) (by omega)

def isBasic (char : Char) : Bool := char.toNat < 0x80

structure Progress where
  delta : Nat := 0
  bias : Nat := 72
  handled : Nat
  output : List Char

/-- Goes over the label once for one code point, which is written where it stands. -/
def Progress.pass (basics code : Nat) (progress : Progress) (char : Char) : Progress :=
  if char.toNat < code then { progress with delta := progress.delta + 1 }
  else if char.toNat = code then
    { delta := 0
      bias := adapt progress.delta (progress.handled + 1) (progress.handled == basics)
      handled := progress.handled + 1
      output := progress.output ++ writeNumber progress.delta progress.bias 36 }
  else progress

/-- The code points of a label in ascending order, from the one after the last handled. -/
def encodeCodes (label : List Char) (basics : Nat) :
    (next : Nat) → Progress → List Nat → List Char
  | _, progress, [] => progress.output
  | next, progress, code :: codes =>
      let start := { progress with
        delta := progress.delta + (code - next) * (progress.handled + 1) }
      let after := label.foldl (Progress.pass basics code) start
      encodeCodes label basics (code + 1) { after with delta := after.delta + 1 } codes

/-- Each number once, in ascending order, for a list in ascending order. -/
def distinct : List Nat → List Nat
  | a :: b :: rest => if a = b then distinct (b :: rest) else a :: distinct (b :: rest)
  | rest => rest

def encode (label : List Char) : List Char :=
  let basic := label.filter isBasic
  let codes := distinct ((label.filter fun char => !isBasic char).map Char.toNat).mergeSort
  let start := if basic.isEmpty then [] else basic ++ ['-']
  encodeCodes label basic.length 0x80 { handled := basic.length, output := start } codes

/-- A number read off the digits from the given position on, and what follows it. -/
def readNumber (bias : Nat) : (value weight position : Nat) → List Char → Option (Nat × List Char)
  | _, _, _, [] => none
  | value, weight, position, char :: rest =>
      match digitValue? char with
      | none => none
      | some digit =>
          let limit := threshold position bias
          let value := value + digit * weight
          if digit < limit then some (value, rest)
          else readNumber bias value (weight * (36 - limit)) (position + 36) rest

/-- Puts characters into the label, one for each number, for at most `fuel` numbers. -/
def decodeFrom : (fuel : Nat) → (code place bias : Nat) → List Char → List Char →
    Option (List Char)
  | 0, _, _, _, _, _ => none
  | _ + 1, _, _, _, label, [] => some label
  | fuel + 1, code, place, bias, label, input =>
      match readNumber bias 0 1 36 input with
      | none => none
      | some (number, rest) =>
          let count := label.length + 1
          let target := place + number
          let code := code + target / count
          let position := target % count
          if code.isValidChar then
            decodeFrom fuel code (position + 1) (adapt number count (place == 0))
              (label.take position ++ Char.ofNat code :: label.drop position) rest
          else none

/-- The label that was written; its last hyphen ends the basic characters. -/
def decode? (text : List Char) : Option (List Char) :=
  let after := (text.reverse.takeWhile (· != '-')).reverse
  let basic := text.take (text.length - after.length - 1)
  if text.all isBasic then decodeFrom (text.length + 1) 0x80 0 72 basic after else none

end FieldPost.Punycode
