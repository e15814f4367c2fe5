import FieldPost.Text.Cut
import FieldPost.Text.Numeral

/-!
Numeric hosts. An IPv4 address may be written with one to four numbers in base ten, eight or
sixteen, the last of which fills the remaining bytes. An IPv6 address has eight pieces,
a run of zero pieces may be left out once, and the last two may be written as an IPv4
address.
-/

namespace FieldPost.Address

open FieldPost.Text

def isDigit (char : Char) : Bool := '0' ≤ char && char ≤ '9'

def readBase (base : Nat) (text : List Char) : Option Nat :=
  text.foldlM (fun value char =>
    (Numeral.digit? base char).map fun digit => value * base + digit) 0

/-- A number of an IPv4 address: sixteen after `0x`, eight after `0`, else ten. -/
def readNumber (text : List Char) : Option Nat :=
  match text with
  | [] => none
  | '0' :: 'x' :: rest => readBase 16 rest
  | '0' :: 'X' :: rest => readBase 16 rest
  | '0' :: digit :: rest => readBase 8 (digit :: rest)
  | text => readBase 10 text

/-- The parts between full stops, without an empty one at the end. -/
def parts (host : List Char) : List (List Char) :=
  let all := splitOnChar '.' host
  if all.getLast? = some [] ∧ 1 < all.length then all.dropLast else all

/-- Whether a host has to be an IPv4 address: its last part is a number. -/
def endsInNumber (host : List Char) : Bool :=
  match (parts host).getLast? with
  | none => false
  | some last => (!last.isEmpty && last.all isDigit) || (readNumber last).isSome

/-- The last number fills the bytes that the others leave. -/
def joinNumbers : List Nat → Option Nat
  | [] => none
  | numbers =>
      let leading := numbers.dropLast
      let last := numbers.getLastD 0
      if 4 < numbers.length ∨ leading.any (255 < ·) ∨ Nat.pow 256 (4 - leading.length) ≤ last then none
      else some (leading.foldl (fun value number => value * 256 + number) 0 *
        Nat.pow 256 (4 - leading.length) + last)

def readIpv4 (host : List Char) : Option Nat := do
  let numbers ← (parts host).mapM readNumber
  joinNumbers numbers

def ipv4Text (address : Nat) : String :=
  ".".intercalate ([3, 2, 1, 0].map fun place => toString (address / Nat.pow 256 place % 256))

def readPiece (text : List Char) : Option Nat :=
  if text.isEmpty ∨ 4 < text.length then none else readBase 16 text

/-- A byte in base ten, without zeros in front. -/
def readByte (text : List Char) : Option Nat :=
  if text.isEmpty ∨ (1 < text.length ∧ text.head? = some '0') then none
  else (readBase 10 text).filter (· ≤ 255)

def readDotted (text : List Char) : Option (List Nat) := do
  match ← (splitOnChar '.' text).mapM readByte with
  | [a, b, c, d] => some [a * 256 + b, c * 256 + d]
  | _ => none

/-- The pieces of a text with colons between them. Only the last may be dotted. -/
def readPieces (dotted : Bool) (text : List Char) : Option (List Nat) :=
  if text.isEmpty then some []
  else
    let groups := splitOnChar ':' text
    let last := groups.getLastD []
    if dotted && last.contains '.' then do
      let leading ← groups.dropLast.mapM readPiece
      let final ← readDotted last
      some (leading ++ final)
    else groups.mapM readPiece

/-- The eight pieces of an address. -/
def readIpv6 (text : List Char) : Option (List Nat) :=
  match cutAt "::".toList text with
  | none => do
      let pieces ← readPieces true text
      if pieces.length = 8 then some pieces else none
  | some (before, after) => do
      let leading ← readPieces false before
      let trailing ← readPieces true after
      let count := leading.length + trailing.length
      if count ≤ 7 then some (leading ++ List.replicate (8 - count) 0 ++ trailing) else none

def zeroRun (pieces : List Nat) : Nat := (pieces.takeWhile (· == 0)).length

/-- Where the longest run of two or more zero pieces begins, the first of equal ones. -/
def longestRun (pieces : List Nat) : Option (Nat × Nat) :=
  ((List.range pieces.length).map fun start => (start, zeroRun (pieces.drop start))).foldl
    (fun best run =>
      if run.2 < 2 then best
      else match best with
        | none => some run
        | some (_, length) => if length < run.2 then some run else best) none

def hex (piece : Nat) : String := String.ofList (Nat.toDigits 16 piece)

def ipv6Text (pieces : List Nat) : String :=
  match longestRun pieces with
  | none => ":".intercalate (pieces.map hex)
  | some (start, length) =>
      ":".intercalate ((pieces.take start).map hex) ++ "::" ++
        ":".intercalate ((pieces.drop (start + length)).map hex)

end FieldPost.Address
