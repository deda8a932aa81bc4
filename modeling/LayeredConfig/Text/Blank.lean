import LayeredConfig.Text.Ranges

/-!
# LayeredConfig.Text.Blank

Blank characters in the sense of the Unicode property `White_Space`, and the removal of them.
-/

namespace LayeredConfig.Text

/-- The characters with the property `White_Space`. -/
def blankRanges : Ranges := [
  (0x9, 0xD), (0x20, 0x20), (0x85, 0x85), (0xA0, 0xA0), (0x1680, 0x1680), (0x2000, 0x200A),
  (0x2028, 0x2029), (0x202F, 0x202F), (0x205F, 0x205F), (0x3000, 0x3000)]

def isBlank (c : Char) : Bool := blankRanges.contains c

/-- Drops the blanks at both ends. -/
def trim (cs : List Char) : List Char :=
  ((cs.dropWhile isBlank).reverse.dropWhile isBlank).reverse

def squeeze (cs : List Char) : List Char := cs.filter (!isBlank ·)

end LayeredConfig.Text
