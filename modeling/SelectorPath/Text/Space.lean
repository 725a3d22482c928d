import SelectorPath.Text.Ranges

/-!
White space. Two sets are in use: every character of the property White_Space separates
and surrounds selectors, and only five of them, the blanks, end a hexadecimal escape.
-/

namespace SelectorPath.Text

/-- The ranges of the property White_Space. -/
def spaceRanges : List (Nat × Nat) :=
  [(0x9, 0xD), (0x20, 0x20), (0x85, 0x85), (0xA0, 0xA0), (0x1680, 0x1680), (0x2000, 0x200A),
   (0x2028, 0x2029), (0x202F, 0x202F), (0x205F, 0x205F), (0x3000, 0x3000)]

/-- Whether a character is white space. -/
def isSpace (c : Char) : Bool := inRanges c.toNat spaceRanges

/-- Whether a character is a space, a tab, a line feed, a form feed or a carriage return. -/
def isBlank (c : Char) : Bool :=
  c = ' ' || c = '\t' || c = '\n' || c = '\x0c' || c = '\r'

/-- The text without the white space at its two ends. -/
def trim (s : List Char) : List Char :=
  ((s.dropWhile isSpace).reverse.dropWhile isSpace).reverse

end SelectorPath.Text
