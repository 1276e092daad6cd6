import ModelLabels.Text.Cells
import ModelLabels.Text.Lines
import ModelLabels.Template.Warning
/-! # Reports

A report shows a warning below the line of the template that it is about.  The marked characters
are underlined, an arrow leads from the middle of the underline to a comment, and a note may follow.
Columns are characters; a wide character takes two cells of every row.

* `Warning.report`: the report of a warning.
* `Report.Frame`: the place of a warning in characters, line by line.
-/

namespace ModelLabels
set_option autoImplicit false

namespace Report

/-- The colours of a report. -/
inductive Ink where
  /-- What the warning is about. -/
  | marked
  /-- The rest of the line. -/
  | plain
  /-- The frame around the report. -/
  | frame
  /-- The margin beside rows without a line number. -/
  | margin
  /-- The word in front of a note. -/
  | note

/-- The parameters of the terminal sequence that selects an ink. -/
def Ink.code : Ink → String
  | marked => "33"
  | plain => "38;5;249"
  | frame => "38;5;246"
  | margin => "38;5;240"
  | note => "38;5;115"

/-- A text in a colour. -/
def paint (ink : Ink) (s : String) : String := "\x1b[" ++ ink.code ++ "m" ++ s ++ "\x1b[0m"

/-- A blank of a given width. -/
def blanks (n : Nat) : String := String.ofList (List.replicate n ' ')

/-- The number of columns between two tab stops. -/
def tabWidth : Nat := 4

/-- What a character shows at a column, and the cells it takes there.  A tab reaches to the next tab
stop, and other blanks take one cell each. -/
def shown (column : Nat) (c : Char) : Char × Nat :=
  if c = '\t' then (' ', tabWidth - column % tabWidth)
  else if isBlank c then (' ', 1)
  else (c, cellWidth c)

/-- The place of a warning: its line without the blanks at the end, the line's number from one, and
the marked range of columns with the column of the arrow. -/
structure Frame where
  line : List Char
  number : Nat
  start : Nat
  stop : Nat
  middle : Nat

/-- The place of a character range in a text.  The arrow stands at the middle of the range, counted
from the start of the text and rounded down. -/
def Frame.of (text : List Char) (range : Span) : Frame :=
  let (line, number, first) := lineAt range.start 0 0 (splitLines text)
  ⟨trimBlankEnd line, number + 1, range.start - first, range.stop - first,
    (range.start + range.stop) / 2 - first⟩

namespace Frame

/-- Whether a column is marked. -/
def isMarked (f : Frame) (column : Nat) : Bool := f.start ≤ column && column < f.stop

/-- One character of the line, in its colour. -/
def cell (f : Frame) (column : Nat) (c : Char) : String :=
  let ink := if f.isMarked column then Ink.marked else .plain
  let (s, width) := shown column c
  if s = ' ' then String.join (List.replicate width (paint ink " ")) else paint ink (String.singleton s)

/-- The line, each character in its colour. -/
def sourceRow (f : Frame) : String :=
  String.join (f.line.mapIdx fun column c => f.cell column c)

/-- The cells a column takes in the rows below the line; past its end every column takes one. -/
def width (f : Frame) (column : Nat) : Nat :=
  match f.line[column]? with
  | some c => (shown column c).2
  | none => 1

/-- A row below the line: each column shows a first sign and fills its other cells with a second. -/
def row (f : Frame) (signs : Nat → String × String) : String :=
  String.join ((List.range (f.stop + 2)).map fun column =>
    match f.width column with
    | 0 => ""
    | n + 1 => (signs column).1 ++ String.join (List.replicate n (signs column).2))

/-- The row that underlines the marked columns; above the arrow the line branches off. -/
def underlineRow (f : Frame) : String :=
  f.row fun column =>
    if column = f.middle then
      if f.start = f.stop then (paint .marked "│", paint .marked " ")
      else (paint .marked "┬", paint .marked "─")
    else if f.isMarked column then (paint .marked "─", paint .marked "─")
    else (" ", " ")

/-- The row of the arrow, which leads to the comment on its right. -/
def arrowRow (f : Frame) : String :=
  f.row fun column =>
    if column < f.middle then (" ", " ")
    else if column = f.middle then (paint .marked "╰", paint .marked "─")
    else (paint .marked "─", paint .marked "─")

end Frame

/-- The rows of a report on a range of a text that is called `title`. -/
def rows (title : String) (text : List Char) (range : Span) (message comment : String)
    (note? : Option String) : List String :=
  let f := Frame.of text range
  let digits := (toString f.number).length
  let margin := " " ++ paint .margin (blanks (digits + 1) ++ "│") ++ " "
  let place := title ++ ":" ++ toString f.number ++ ":" ++ toString (f.start + 1)
  [paint .marked "Warning:" ++ " " ++ message,
    blanks (digits + 2) ++ paint .frame "╭" ++ paint .frame "─" ++ paint .frame "[" ++ place
      ++ paint .frame "]",
    blanks (digits + 2) ++ paint .frame "│",
    " " ++ paint .frame (toString f.number ++ " │") ++ " " ++ f.sourceRow,
    margin ++ f.underlineRow,
    margin ++ f.arrowRow ++ " " ++ comment]
  ++ (match note? with
    | some note => [margin, margin ++ paint .note "Note" ++ ": " ++ note]
    | none => [])
  ++ [paint .frame (String.ofList (List.replicate (digits + 2) '─') ++ "╯")]

end Report

/-- The report of a warning about a template that is called `title`.  Every row ends in a line
feed. -/
def Warning.report (w : Warning) (title text : String) : String :=
  let chars := text.toList
  String.join ((Report.rows title chars (w.span.toChars chars) w.message w.comment w.note?).map
    (· ++ "\n"))

end ModelLabels
