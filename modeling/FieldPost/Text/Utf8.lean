/-!
UTF-8: the bytes of a text, the text of bytes, and the lenient reading that puts
U+FFFD for every longest run of bytes that begins a character and does not finish
one. Strict reading accepts exactly what the lenient one reads without a
replacement.
-/

namespace FieldPost.Text

abbrev Bytes := List UInt8

namespace Utf8

def encodeChars (chars : List Char) : Bytes := chars.flatMap String.utf8EncodeChar

def encode (text : String) : Bytes := encodeChars text.toList

theorem length_le_encodeChars (chars : List Char) :
    chars.length ≤ (encodeChars chars).length := by
  induction chars with
  | nil => exact Nat.le_refl _
  | cons char chars induction =>
      have positive := char.utf8Size_pos
      simp only [encodeChars, List.flatMap_cons, List.length_cons, List.length_append,
        String.length_utf8EncodeChar] at induction ⊢
      omega

/-- Collects `count` continuation bytes, the first of which lies between `low` and
`high`. A byte that does not fit is left for the next character. -/
def continued : (count low high value : Nat) → Bytes → Option Char × Bytes
  | 0, _, _, value, rest => (some (Char.ofNat value), rest)
  | _ + 1, _, _, _, [] => (none, [])
  | count + 1, low, high, value, byte :: rest =>
      if low ≤ byte.toNat ∧ byte.toNat ≤ high then
        continued count 0x80 0xBF (value * 0x40 + (byte.toNat - 0x80)) rest
      else (none, byte :: rest)

theorem continued_length_le (count low high value : Nat) (bytes : Bytes) :
    (continued count low high value bytes).2.length ≤ bytes.length := by
  induction bytes generalizing count low high value with
  | nil => cases count <;> simp [continued]
  | cons byte rest induction =>
      cases count with
      | zero => simp [continued]
      | succ count =>
          simp only [continued]
          split
          · exact Nat.le_succ_of_le (induction count _ _ _)
          · simp

/-- The character that begins with byte `lead`, or nothing when the bytes are not one,
and the bytes after it. The bounds of the second byte rule out overlong forms,
surrogates and values past U+10FFFF. -/
def next (lead : UInt8) (rest : Bytes) : Option Char × Bytes :=
  let first := lead.toNat
  if first < 0x80 then (some (Char.ofNat first), rest)
  else if first < 0xC2 then (none, rest)
  else if first < 0xE0 then continued 1 0x80 0xBF (first - 0xC0) rest
  else if first < 0xF0 then
    continued 2 (if first = 0xE0 then 0xA0 else 0x80) (if first = 0xED then 0x9F else 0xBF)
      (first - 0xE0) rest
  else if first < 0xF5 then
    continued 3 (if first = 0xF0 then 0x90 else 0x80) (if first = 0xF4 then 0x8F else 0xBF)
      (first - 0xF0) rest
  else (none, rest)

theorem next_length_le (lead : UInt8) (rest : Bytes) :
    (next lead rest).2.length ≤ rest.length := by
  by_cases one : lead.toNat < 0x80
  · simp [next, one]
  by_cases stray : lead.toNat < 0xC2
  · simp [next, one, stray]
  by_cases two : lead.toNat < 0xE0
  · simpa [next, one, stray, two] using continued_length_le _ _ _ _ rest
  by_cases three : lead.toNat < 0xF0
  · simpa [next, one, stray, two, three] using continued_length_le _ _ _ _ rest
  by_cases four : lead.toNat < 0xF5
  · simpa [next, one, stray, two, three, four] using continued_length_le _ _ _ _ rest
  · simp [next, one, stray, two, three, four]

/-- The characters of the bytes, each either read or nothing. -/
def scan : Bytes → List (Option Char)
  | [] => []
  | lead :: rest =>
      (next lead rest).1 :: scan (next lead rest).2
termination_by bytes => bytes.length
decreasing_by
  exact Nat.lt_succ_of_le (next_length_le lead rest)

/-- The text of bytes that are UTF-8 throughout. -/
def decode? (bytes : Bytes) : Option String :=
  ((scan bytes).mapM fun read => read).map String.ofList

/-- The text of any bytes, with U+FFFD where they are not UTF-8. -/
def decodeLossy (bytes : Bytes) : List Char :=
  (scan bytes).map fun read => read.getD '\uFFFD'

end Utf8

end FieldPost.Text
