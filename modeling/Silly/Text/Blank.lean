import Silly.Text.Ranges

/-!
# Blank characters

The characters that separate the words of a program: those with the Unicode property
`White_Space`. There are twenty-five of them. The zero-width space, the byte order mark and the
Mongolian vowel separator are not among them, and so may stand inside a word.
-/

namespace Silly

/-- The code points with the property `White_Space`. -/
def blankRanges : Ranges :=
  [(0x9, 0xD), (0x20, 0x20), (0x85, 0x85), (0xA0, 0xA0), (0x1680, 0x1680), (0x2000, 0x200A),
   (0x2028, 0x2029), (0x202F, 0x202F), (0x205F, 0x205F), (0x3000, 0x3000)]

/-- Whether `c` separates words. -/
def isBlank (c : Char) : Bool := blankRanges.has c

example : (blankRanges.map fun r => r.2 + 1 - r.1).sum = 25 := rfl

end Silly
