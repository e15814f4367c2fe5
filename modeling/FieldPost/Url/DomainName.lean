import FieldPost.Url.Punycode

/-!
Domain names in the form that is sent over the network. Each character is mapped to its
usual spelling first: lower case, ordinary widths, full stops, and nothing for marks that
are not shown. Labels that still have characters outside ASCII are then written in
Punycode; labels that claim to be Punycode must be what writing produces.

The mapping is a part of the one in UTS 46: it has the Latin, Greek and Cyrillic letters and the
wide forms. It leaves out ligatures, the letters of Armenian and of other alphabets with two cases,
the composition of letters with the marks after them, and the rules for joiners, which are always
refused.
-/

namespace FieldPost.DomainName

/-- The exceptions among the letters of the blocks Latin-1 and Latin Extended-A, and among the
marks that stand for others. -/
def exceptions : List (Nat × List Nat) :=
  [(0xAA, [0x61]), (0xB2, [0x32]), (0xB3, [0x33]), (0xB5, [0x3BC]), (0xB9, [0x31]),
   (0xBA, [0x6F]), (0xBC, [0x31, 0x2044, 0x34]), (0xBD, [0x31, 0x2044, 0x32]),
   (0xBE, [0x33, 0x2044, 0x34]), (0x130, [0x69, 0x307]), (0x132, [0x69, 0x6A]),
   (0x133, [0x69, 0x6A]), (0x13F, [0x6C, 0xB7]), (0x140, [0x6C, 0xB7]), (0x149, [0x2BC, 0x6E]),
   (0x178, [0xFF]), (0x17F, [0x73]), (0x3002, [0x2E]), (0xFF61, [0x2E]), (0x2024, [0x2E]),
   (0x2025, [0x2E, 0x2E]), (0x2026, [0x2E, 0x2E, 0x2E])]

/-- Not shown, and dropped. -/
def isIgnored (code : Nat) : Bool :=
  [0xAD, 0x34F, 0x200B, 0x2060, 0x2064, 0xFEFF].contains code ||
    (0x180B ≤ code && code ≤ 0x180D) || (0xFE00 ≤ code && code ≤ 0xFE0F)

/-- Spaces, controls, joiners, and code points for private use or for no use. -/
def isRefused (code : Nat) : Bool :=
  (0x80 ≤ code && code ≤ 0xA0) || [0xA8, 0xAF, 0xB4, 0xB8, 0x1680, 0x3000, 0x202F, 0x205F].contains code ||
    (0x2000 ≤ code && code ≤ 0x200A) || (0x200C ≤ code && code ≤ 0x200F) ||
    (0x2028 ≤ code && code ≤ 0x202E) || (0x2061 ≤ code && code ≤ 0x206F && code != 0x2064) ||
    (0xE000 ≤ code && code ≤ 0xF8FF) || (0xFDD0 ≤ code && code ≤ 0xFDEF) ||
    (0xFFF0 ≤ code && code ≤ 0xFFFF) || 0xE0000 ≤ code || code % 0x10000 == 0xFFFE ||
    code % 0x10000 == 0xFFFF

/-- The lower case of the alphabets that have it at a fixed distance. -/
def lowerCode (code : Nat) : Nat :=
  if (0x41 ≤ code ∧ code ≤ 0x5A) ∨ (0xC0 ≤ code ∧ code ≤ 0xDE ∧ code ≠ 0xD7) then code + 32
  else if (0x139 ≤ code ∧ code ≤ 0x148) ∨ (0x179 ≤ code ∧ code ≤ 0x17E) then code + code % 2
  else if 0x100 ≤ code ∧ code ≤ 0x177 ∧ code ≠ 0x138 then code + (code + 1) % 2
  else if 0x391 ≤ code ∧ code ≤ 0x3AB ∧ code ≠ 0x3A2 then code + 32
  else if 0x400 ≤ code ∧ code ≤ 0x40F then code + 80
  else if 0x410 ≤ code ∧ code ≤ 0x42F then code + 32
  else code

/-- The usual spelling of a character, or nothing when names cannot have it. Characters of which
nothing is known here stand for themselves. -/
def mapChar (char : Char) : Option (List Char) :=
  let code := char.toNat
  match exceptions.lookup code with
  | some codes => some (codes.map Char.ofNat)
  | none =>
      if isIgnored code then some []
      else if isRefused code then none
      else if 0xFF01 ≤ code ∧ code ≤ 0xFF5E then some [Char.ofNat (lowerCode (code - 0xFEE0))]
      else some [Char.ofNat (lowerCode code)]

def mapChars (name : List Char) : Option (List Char) :=
  (name.mapM mapChar).map List.flatten

/-- Characters that no host name has. -/
def isForbidden (char : Char) : Bool :=
  char.toNat ≤ 0x20 || char.toNat == 0x7F || "%#/:<>?@[\\]^|".toList.contains char

def isAscii (label : List Char) : Bool := label.all Punycode.isBasic

/-- A label as it is sent. -/
def encodeLabel (label : List Char) : Option (List Char) :=
  match label with
  | 'x' :: 'n' :: '-' :: '-' :: rest =>
      match Punycode.decode? rest with
      | some decoded =>
          if !isAscii decoded && mapChars decoded = some decoded && Punycode.encode decoded = rest then
            some label
          else none
      | none => none
  | label => if isAscii label then some label else some ("xn--".toList ++ Punycode.encode label)

def labels (name : List Char) : List (List Char) :=
  match name with
  | [] => [[]]
  | char :: rest =>
      if char = '.' then [] :: labels rest
      else match labels rest with
        | [] => [[char]]
        | label :: more => (char :: label) :: more

/-- The name as it is sent, or nothing when it is none. -/
def toAscii? (name : List Char) : Option (List Char) := do
  let mapped ← mapChars name
  let labels ← (labels mapped).mapM encodeLabel
  let name := ['.'].intercalate labels
  if name.any isForbidden then none else some name

end FieldPost.DomainName
