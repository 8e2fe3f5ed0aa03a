import MessageCodec.Text.Ranges

/-!
# Blank characters

Blank covers the Unicode white space together with the four information separators, so a text is
trimmed of more than ASCII blanks. Trimming takes blanks from both ends and leaves the inside alone.
-/

namespace MessageCodec.Text

/-- White space of any script and the information separators U+001C to U+001F. -/
def blankRanges : Ranges :=
  [(0x9, 0xd), (0x1c, 0x20), (0x85, 0x85), (0xa0, 0xa0), (0x1680, 0x1680), (0x2000, 0x200a),
    (0x2028, 0x2029), (0x202f, 0x202f), (0x205f, 0x205f), (0x3000, 0x3000)]

def isBlank (c : Char) : Bool := blankRanges.contains c

def trimWhile (p : Char → Bool) (cs : List Char) : List Char :=
  ((cs.dropWhile p).reverse.dropWhile p).reverse

def trim (cs : List Char) : List Char := trimWhile isBlank cs

def trimText (s : String) : String := String.ofList (trim s.toList)

def removeBlanks (cs : List Char) : List Char := cs.filter fun c => !isBlank c

end MessageCodec.Text
