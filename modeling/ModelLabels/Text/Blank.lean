/-! # Blank characters

The characters with the Unicode property White_Space: a route that holds one of them is ordinary
text, and a report drops them from the end of a line.
-/

namespace ModelLabels
set_option autoImplicit false

/-- The ranges of code points with the property White_Space. -/
def blankRanges : List (Nat × Nat) :=
  [(0x09, 0x0D), (0x20, 0x20), (0x85, 0x85), (0xA0, 0xA0), (0x1680, 0x1680), (0x2000, 0x200A),
   (0x2028, 0x2029), (0x202F, 0x202F), (0x205F, 0x205F), (0x3000, 0x3000)]

/-- Whether a code point lies in one of the given inclusive ranges. -/
def inRanges (ranges : List (Nat × Nat)) (n : Nat) : Bool :=
  ranges.any fun r => r.1 ≤ n && n ≤ r.2

/-- Whether a character has the Unicode property White_Space. -/
def isBlank (c : Char) : Bool := inRanges blankRanges c.toNat

/-- A list of characters without the blanks at its end. -/
def trimBlankEnd (cs : List Char) : List Char := (cs.reverse.dropWhile isBlank).reverse

end ModelLabels
