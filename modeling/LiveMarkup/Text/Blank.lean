/-!
# Blanks

The blank characters are those with the Unicode property `White_Space`, 25 in all. A text is
trimmed of blanks at its ends.
-/

namespace LiveMarkup

/-- A character with the Unicode property `White_Space`. -/
def isBlank (c : Char) : Bool :=
  let n := c.toNat
  (0x9 ≤ n && n ≤ 0xD) || n == 0x20 || n == 0x85 || n == 0xA0 || n == 0x1680 ||
    (0x2000 ≤ n && n ≤ 0x200A) || n == 0x2028 || n == 0x2029 || n == 0x202F || n == 0x205F ||
    n == 0x3000

/-- The text behind its leading blanks. -/
def trimStart (text : List Char) : List Char := text.dropWhile isBlank

/-- The text before its trailing blanks. -/
def trimEnd (text : List Char) : List Char := (text.reverse.dropWhile isBlank).reverse

/-- The text without blanks at its ends. -/
def trim (text : List Char) : List Char := trimEnd (trimStart text)

end LiveMarkup
