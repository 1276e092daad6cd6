/-! # Lines

A text is divided into lines after each line terminator; every line keeps its terminator, and a
terminator at the very end of the text begins no further line.
-/

namespace ModelLabels
set_option autoImplicit false

/-- Whether a character ends a line: the line breaks of ASCII and those of Unicode. -/
def isLineBreak (c : Char) : Bool :=
  (0x0A ≤ c.toNat && c.toNat ≤ 0x0D) || c.toNat == 0x85 || c.toNat == 0x2028 || c.toNat == 0x2029

/-- Put a character in front of the first line. -/
def pushLine (c : Char) : List (List Char) → List (List Char)
  | [] => [[c]]
  | line :: lines => (c :: line) :: lines

/-- The lines of a text; a carriage return and the line feed after it are one terminator. -/
def splitLines : List Char → List (List Char)
  | [] => []
  | '\r' :: '\n' :: cs => ['\r', '\n'] :: splitLines cs
  | c :: cs => if isLineBreak c then [c] :: splitLines cs else pushLine c (splitLines cs)

/-- The line that holds the character at an index, with the line's number from zero and the index
of its first character; past the end of the text it is the last line. -/
def lineAt (index number first : Nat) : List (List Char) → List Char × Nat × Nat
  | [] => ([], number, first)
  | [line] => (line, number, first)
  | line :: next :: lines =>
    if index < first + line.length then (line, number, first)
    else lineAt index (number + 1) (first + line.length) (next :: lines)

end ModelLabels
