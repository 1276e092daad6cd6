import ModelLabels.Toml.DateTime
import ModelLabels.Toml.Quoted
/-! # Configuration files

A file is a list of lines.  A line gives a key its value, or opens the table that the lines after it
add to.

* `Toml.value`: the value at the front of a text, with arrays and tables nested to a bounded depth.
* `Toml.Line`, `Toml.lines`: the lines of a file.
* `Toml.entriesOf?`: the table of a file, if all of it is well formed.
-/

namespace ModelLabels.Toml
set_option autoImplicit false

open Reader

/-! ## Blanks, comments and keys -/

/-- A comment. -/
def comment : Reader Unit := do
  char '#'
  let _ ← takeWhile isPlain

/-- Blanks, line breaks and comments. -/
def space : Reader Unit := do
  let _ ← repeated ((do let _ ← satisfy isGap) <|> lineBreak <|> comment)

/-- The end of a line. -/
def lineEnd : Reader Unit := do
  gap
  let _ ← optional? comment
  lineBreak <|> atEnd

/-- Whether a character may stand in a key without quotes. -/
def isBare (c : Char) : Bool := c.isAlphanum || c == '_' || c == '-'

/-- A key without quotes. -/
def bareKey : Reader String := do
  let first ← satisfy isBare
  return String.ofList (first :: (← takeWhile isBare))

/-- A key, with the blanks around it. -/
def simpleKey : Reader String := do
  gap
  let key ← basicText <|> literalText <|> bareKey
  gap
  return key

/-- The bound for nested values and for the length of paths, which stay below it. -/
def nestingLimit : Nat := 80

/-- Keys between dots. -/
def path : Reader (List String) := do
  let keys ← separated simpleKey (char '.')
  if keys.isEmpty ∨ nestingLimit ≤ keys.length then failure else return keys

/-! ## Values -/

/-- The characters a reader takes, as text. -/
def written {α : Type} (r : Reader α) : Reader String := fun cs =>
  match r cs with
  | some (_, rest) => some (String.ofList (cs.take (cs.length - rest.length)), rest)
  | none => none

/-- A value that holds no other values. -/
def scalar : Reader Value :=
  Value.string <$> text
  <|> Value.dateTime <$> written dateTime
  <|> Value.float <$> written float
  <|> Value.integer <$> integer
  <|> (fun _ => Value.boolean true) <$> literal ['t', 'r', 'u', 'e']
  <|> (fun _ => Value.boolean false) <$> literal ['f', 'a', 'l', 's', 'e']

/-- An array of items, which may end in a comma. -/
def array (item : Reader Value) : Reader Value := do
  char '['
  let items ← separated (do space; let a ← item; space; return a) (char ',')
  let _ ← if items.isEmpty then pure none else optional? (char ',')
  space
  char ']'
  return .array items

/-- A path with the value of its last key. -/
def assignment (item : Reader Value) : Reader (List String × Value) := do
  let keys ← path
  char '='
  gap
  let value ← item
  return (keys, value)

/-- Add the value of a path to a table. -/
def assign? (origin : Origin) (entries : Entries) (keys : List String) (value : Value) :
    Option Entries :=
  match keys.getLast? with
  | some key => addAt? keys.dropLast key value origin entries
  | none => none

/-- A table between braces. -/
def inlineTable (item : Reader Value) : Reader Value := do
  char '\x7b'
  let pairs ← separated (do let pair ← assignment item; gap; return pair) (char ',')
  gap
  char '\x7d'
  match pairs.foldlM (fun entries pair => assign? .inline entries pair.1 pair.2) [] with
  | some entries => return .table .inline entries
  | none => failure

/-- A value with fewer than a given number of arrays and tables around another one inside it. -/
def valueWithin : Nat → Reader Value
  | 0 => scalar
  | depth + 1 => do
    match ← peek? with
    | some '[' => array (valueWithin depth)
    | some '\x7b' => inlineTable (valueWithin depth)
    | _ => scalar

/-- A value. -/
def value : Reader Value := valueWithin (nestingLimit - 1)

/-! ## Lines -/

/-- What a line says. -/
inductive Line where
  /-- The key at the end of a path has a value. -/
  | assign (path : List String) (value : Value)
  /-- The lines that follow are about the table at the end of a path. -/
  | open (path : List String)
  /-- The lines that follow are about one more table at the end of a path. -/
  | openNext (path : List String)

/-- A header of a table, which is told by its brackets. -/
def header : Reader Line := do
  match ← optional? (literal ['[', '[']) with
  | some () =>
    let keys ← path
    literal [']', ']']
    return .openNext keys
  | none =>
    char '['
    let keys ← path
    char ']'
    return .open keys

/-- A line, or nothing where a line is empty. -/
def line : Reader (Option Line) := do
  gap
  match ← peek? with
  | some '\n' | some '\r' =>
    lineBreak
    return none
  | some '#' =>
    comment
    lineBreak <|> atEnd
    return none
  | some '[' =>
    let h ← header
    lineEnd
    return some h
  | some _ =>
    let (keys, value) ← assignment value
    lineEnd
    return some (.assign keys value)
  | none => failure

/-- The lines of a file; a byte order mark before the first is skipped. -/
def lines : Reader (List Line) := do
  let _ ← optional? (char '\ufeff')
  let found ← repeated line
  gap
  atEnd
  return found.filterMap id

/-! ## Tables -/

/-- Open the table of a key, which may have been passed before but not opened. -/
def openTable? (key : String) (entries : Entries) : Option Entries :=
  match entries.get? key with
  | none => some (entries ++ [(key, .table .header [])])
  | some (.table .passed sub) => some (entries.replace key (.table .header sub))
  | some _ => none

/-- Open one more table of a key. -/
def openNext? (key : String) (entries : Entries) : Option Entries :=
  match entries.get? key with
  | none => some (entries ++ [(key, .tables [[]])])
  | some (.tables items) => some (entries.replace key (.tables (items ++ [[]])))
  | some _ => none

/-- Change the table that holds the last key of a header. -/
def changeAbove? (keys : List String) (change : String → Entries → Option Entries)
    (entries : Entries) : Option Entries :=
  match keys.getLast? with
  | some key => changeAt? false (fun _ => change key) .header entries keys.dropLast
  | none => none

/-- Do what a line says to the table of a file, when earlier lines have opened the table at the end
of a path. -/
def Line.apply? (opened : List String) (entries : Entries) :
    Line → Option (List String × Entries)
  | .assign keys value => do
    let changed ← changeAt? false (fun origin table => assign? origin table keys value) .header
      entries opened
    return (opened, changed)
  | .open keys => do
    let changed ← changeAbove? keys openTable? entries
    return (keys, changed)
  | .openNext keys => do
    let changed ← changeAbove? keys openNext? entries
    return (keys, changed)

/-- The table of a file, if the file is well formed. -/
def entriesOf? (file : String) : Option Entries := do
  let found ← lines.all? file.toList
  let (_, entries) ← found.foldlM (fun (opened, entries) l => l.apply? opened entries)
    (([] : List String), ([] : Entries))
  return entries

end ModelLabels.Toml
