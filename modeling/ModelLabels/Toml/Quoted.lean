import ModelLabels.Toml.Number
/-! # Quoted text

Text stands between double quotes, where a backslash escapes characters, or between single quotes,
where it stands as it is written.  Between three quotes of either kind it may extend over lines, may
hold up to two quotes in a row, and loses the line break it begins with.
-/

namespace ModelLabels.Toml
set_option autoImplicit false

open Reader

/-- Whether a character may stand in a comment and in text as it is: no control character but a tab. -/
def isPlain (c : Char) : Bool := c == '\t' || (0x20 ≤ c.toNat && c != '\x7f')

/-- Whether a character is a blank of a line. -/
def isGap (c : Char) : Bool := c == ' ' || c == '\t'

/-- The blanks at a place in a line. -/
def gap : Reader Unit := do
  let _ ← takeWhile isGap

/-- A line break. -/
def lineBreak : Reader Unit := literal ['\n'] <|> literal ['\r', '\n']

/-- A character given by a fixed number of hexadecimal digits of its code point. -/
def codePoint (digits : Nat) : Reader Char := do
  let n := numeral 16 (← times digits (satisfy (isDigitOf 16)))
  if n.isValidChar then return Char.ofNat n else failure

/-- The character that an escape stands for, behind the backslash. -/
def escaped : Reader Char := do
  match ← satisfy fun _ => true with
  | 'b' => return '\x08'
  | 't' => return '\t'
  | 'n' => return '\n'
  | 'f' => return '\x0c'
  | 'r' => return '\r'
  | '"' => return '"'
  | '\\' => return '\\'
  | 'u' => codePoint 4
  | 'U' => codePoint 8
  | _ => failure

/-- An escape. -/
def escape : Reader (List Char) := do
  char '\\'
  return [← escaped]

/-- A backslash at the end of a line, with all blanks and line breaks that follow. -/
def continuation : Reader (List Char) := do
  char '\\'
  gap
  lineBreak
  let _ ← repeated (lineBreak <|> (do let _ ← satisfy isGap))
  return []

/-- A character that stands for itself, other than the given ones. -/
def itself (except : List Char) : Reader (List Char) := do
  return [← satisfy fun c => isPlain c && !except.contains c]

/-- A line break inside text. -/
def innerBreak : Reader (List Char) := do
  lineBreak
  return ['\n']

/-- Text in double quotes, on one line. -/
def basicText : Reader String := do
  char '"'
  let parts ← repeated (itself ['"', '\\'] <|> escape)
  char '"'
  return String.ofList parts.flatten

/-- Text in single quotes, on one line. -/
def literalText : Reader String := do
  char '\''
  let parts ← repeated (itself ['\''])
  char '\''
  return String.ofList parts.flatten

/-- One or two quotes that do not end text between three of them. -/
def looseQuotes (quote : Char) (content : Reader (List Char)) : Reader (List Char) := fun cs =>
  match cs.takeWhile (· == quote) with
  | [] => none
  | [q] => (content (cs.drop 1)).map fun (part, rest) => (q :: part, rest)
  | [q, r] => (content (cs.drop 2)).map fun (part, rest) => (q :: r :: part, rest)
  | _ => none

/-- The end of text between three quotes, with up to two quotes of the text itself before it. -/
def closingQuotes (quote : Char) : Reader (List Char) := fun cs =>
  let quotes := cs.takeWhile (· == quote)
  if 3 ≤ quotes.length ∧ quotes.length ≤ 5 then some (quotes.drop 3, cs.dropWhile (· == quote))
  else none

/-- Text between three quotes. -/
def longText (quote : Char) (content : Reader (List Char)) : Reader String := do
  literal [quote, quote, quote]
  let _ ← optional? lineBreak
  let parts ← repeated (content <|> looseQuotes quote content)
  let last ← closingQuotes quote
  return String.ofList (parts.flatten ++ last)

/-- Text between three double quotes. -/
def longBasicText : Reader String :=
  longText '"' (itself ['"', '\\'] <|> continuation <|> escape <|> innerBreak)

/-- Text between three single quotes. -/
def longLiteralText : Reader String := longText '\'' (itself ['\''] <|> innerBreak)

/-- Text in quotes of any kind. -/
def text : Reader String := longBasicText <|> basicText <|> longLiteralText <|> literalText

end ModelLabels.Toml
