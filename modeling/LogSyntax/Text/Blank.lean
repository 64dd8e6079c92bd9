import LogSyntax.Text.Ranges
/-!
# White space

The Unicode property White_Space.
-/

namespace LogSyntax

/-- The code points of white space. -/
def blankRanges : CodeRanges :=
  [(0x9, 0xD), (0x20, 0x20), (0x85, 0x85), (0xA0, 0xA0), (0x1680, 0x1680), (0x2000, 0x200A),
   (0x2028, 0x2029), (0x202F, 0x202F), (0x205F, 0x205F), (0x3000, 0x3000)]

/-- White space: spaces, line ends, tabs and the no-break and ideographic spaces, but no control
separator and no character of zero width. -/
def isBlank (c : Char) : Bool :=
  blankRanges.covers c.toNat

example : blankRanges.isAscending = true ∧ blankRanges.size = 25 := by decide

end LogSyntax
