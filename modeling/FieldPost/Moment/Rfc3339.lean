import FieldPost.Moment
import FieldPost.Text.Numeral
import FieldPost.Text.Utf8

/-!
Moments as RFC 3339 texts. Writing gives UTC with the fewest of 0, 3, 6 or 9
fractional digits that are exact, and a sign before years outside 0 to 9999. Reading
takes four-digit years only, any offset in whole minutes, and any number of fractional
digits, of which the first nine count; so far years are written and not read back.
-/

namespace FieldPost.Rfc3339

open FieldPost.Calendar FieldPost.Text

/-- Four digits at least, and a sign when there are years before 0 or after 9999. -/
def writeYear (year : Int) : String :=
  if 0 ≤ year ∧ year ≤ 9999 then Numeral.padded 4 year.toNat
  else (if year < 0 then "-" else "+") ++ Numeral.padded 4 year.natAbs

/-- The fraction of a second, shortest among none, thousandths, millionths and billionths. -/
def writeFraction (nanos : Nat) : String :=
  if nanos = 0 then ""
  else if nanos % 1000000 = 0 then "." ++ Numeral.padded 3 (nanos / 1000000)
  else if nanos % 1000 = 0 then "." ++ Numeral.padded 6 (nanos / 1000)
  else "." ++ Numeral.padded 9 nanos

def write (moment : Moment) : String :=
  let date := dateOfDays (moment.seconds / 86400)
  let ofDay := (moment.seconds % 86400).toNat
  let leap := 1000000000 ≤ moment.nanos
  let second := ofDay % 60 + if leap then 1 else 0
  writeYear date.year ++ "-" ++ Numeral.padded 2 date.month.toNat ++ "-" ++
    Numeral.padded 2 date.day.toNat ++ "T" ++ Numeral.padded 2 (ofDay / 3600) ++ ":" ++
    Numeral.padded 2 (ofDay / 60 % 60) ++ ":" ++ Numeral.padded 2 second ++
    writeFraction (moment.nanos % 1000000000) ++ "+00:00"

inductive Problem
  | tooShort
  | invalid
  | outOfRange
  | tooLong
deriving DecidableEq, Repr

def Problem.message : Problem → String
  | .tooShort => "premature end of input"
  | .invalid => "input contains invalid characters"
  | .outOfRange => "input is out of range"
  | .tooLong => "trailing input"

/-- Exactly `count` decimal digits, continuing the number `value`. -/
def readDigits : (count value : Nat) → List Char → Except Problem (Nat × List Char)
  | 0, value, rest => .ok (value, rest)
  | _ + 1, _, [] => .error .tooShort
  | count + 1, value, char :: rest =>
      match Numeral.digit? 10 char with
      | some digit => readDigits count (value * 10 + digit) rest
      | none => .error .invalid

/-- One of the allowed characters. -/
def readMark (allowed : List Char) : List Char → Except Problem (List Char)
  | [] => .error .tooShort
  | char :: rest => if allowed.contains char then .ok rest else .error .invalid

/-- The nanoseconds of a fraction, if a point stands next. Digits past the ninth are dropped. -/
def readFraction : List Char → Except Problem (Nat × List Char)
  | '.' :: rest =>
      let digits := rest.takeWhile fun char => (Numeral.digit? 10 char).isSome
      if digits.isEmpty then .error (if rest.isEmpty then .tooShort else .invalid)
      else
        let padded := (digits ++ List.replicate 9 '0').take 9
        (readDigits 9 0 padded).map fun read => (read.1, rest.drop digits.length)
  | rest => .ok (0, rest)

/-- Seconds east of UTC, and what follows the offset. The minus sign may also be U+2212. -/
def readOffset : List Char → Except Problem (Int × List Char)
  | [] => .error .tooShort
  | sign :: rest =>
      if sign = 'Z' ∨ sign = 'z' then .ok (0, rest)
      else if sign = '+' ∨ sign = '-' ∨ sign = '\u2212' then do
        let (hours, rest) ← match rest with
          | [] | [_] => .error .tooShort
          | _ => readDigits 2 0 rest
        let rest ← readMark [':'] rest
        let (minutes, rest) ← match rest with
          | [] | [_] => .error .tooShort
          | _ => readDigits 2 0 rest
        if 60 ≤ minutes ∨ 24 ≤ hours then .error .outOfRange
        else
          let offset : Int := hours * 3600 + minutes * 60
          .ok (if sign = '+' then offset else -offset, rest)
      else .error .invalid

def read (text : String) : Except Problem Moment := do
  if (Utf8.encode text).length < 19 then .error .tooShort
  let (year, rest) ← readDigits 4 0 text.toList
  let rest ← readMark ['-'] rest
  let (month, rest) ← readDigits 2 0 rest
  let rest ← readMark ['-'] rest
  let (day, rest) ← readDigits 2 0 rest
  let date : Date := ⟨year, month, day⟩
  if !date.exists then .error .outOfRange
  let rest ← readMark ['T', 't', ' '] rest
  let (hour, rest) ← readDigits 2 0 rest
  let rest ← readMark [':'] rest
  let (minute, rest) ← readDigits 2 0 rest
  let rest ← readMark [':'] rest
  let (second, rest) ← readDigits 2 0 rest
  let (nanos, rest) ← readFraction rest
  if 24 ≤ hour ∨ 60 ≤ minute ∨ 61 ≤ second then .error .outOfRange
  let (offset, rest) ← readOffset rest
  if !rest.isEmpty then .error .tooLong
  let leap := second = 60
  let ofDay : Int := hour * 3600 + minute * 60 + if leap then 59 else second
  match Moment.ofParts? (daysOfDate date * 86400 + ofDay - offset)
      (nanos + if leap then 1000000000 else 0) with
  | some moment => .ok moment
  | none => .error .outOfRange

end FieldPost.Rfc3339
