/-!
Blank characters and trimming. A character is blank when Unicode gives it the
property White_Space; the zero-width and separator controls that merely look
blank are not. Trimming removes blanks at both ends and nothing between them.
-/

namespace FieldPost.Text

/-- The code points with the Unicode property White_Space. -/
def isBlank (char : Char) : Bool :=
  let code := char.toNat
  (0x09 ≤ code && code ≤ 0x0D) || code == 0x20 || code == 0x85 || code == 0xA0 ||
    code == 0x1680 || (0x2000 ≤ code && code ≤ 0x200A) || code == 0x2028 || code == 0x2029 ||
    code == 0x202F || code == 0x205F || code == 0x3000

def trimStart (text : List Char) : List Char := text.dropWhile isBlank

def trimEnd (text : List Char) : List Char := (text.reverse.dropWhile isBlank).reverse

def trim (text : List Char) : List Char := trimEnd (trimStart text)

def trimmed (text : String) : String := String.ofList (trim text.toList)

def trimmedEnd (text : String) : String := String.ofList (trimEnd text.toList)

/-- A text is blank when nothing is left of it after trimming. -/
def isBlankText (text : String) : Bool := text.toList.all isBlank

end FieldPost.Text
