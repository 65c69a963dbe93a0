import Railroad.Text.Ranges

/-!
Blank characters: the Unicode property White_Space, which separates tokens.
-/

namespace Railroad.Text

/-- The code points with the property White_Space. -/
def whiteSpaceRanges : Ranges where
  list := [
    (9, 13), (32, 32), (133, 133), (160, 160), (5760, 5760), (8192, 8202), (8232, 8233),
    (8239, 8239), (8287, 8287), (12288, 12288)]
  ascending := by decide +kernel

/-- Spaces, tabs and line ends of any script. Zero-width characters are not among them. -/
def isWhiteSpace (c : Char) : Bool :=
  whiteSpaceRanges.has c.toNat

end Railroad.Text
