import ModelLabels.Text.Reader
import ModelLabels.Toml.Value
/-! # Numbers

Integers are decimal with an optional sign, or hexadecimal, octal or binary without one, and must fit
64 bits.  Floating-point numbers are decimal with a fraction or an exponent, or one of the words for
infinity and for what is no number.  Digits may be grouped by single underscores.
-/

namespace ModelLabels.Toml
set_option autoImplicit false

open Reader

/-- Whether a character is a digit to a base up to sixteen. -/
def isDigitOf (base : Nat) (c : Char) : Bool :=
  if c.isDigit then c.toNat - 0x30 < base
  else if 'a' ≤ c ∧ c ≤ 'f' ∨ 'A' ≤ c ∧ c ≤ 'F' then base = 16
  else false

/-- The value of a hexadecimal digit. -/
def digitValue (c : Char) : Nat :=
  if c.isDigit then c.toNat - 0x30 else c.toLower.toNat - 0x57

/-- The number that digits stand for to a base. -/
def numeral (base : Nat) (digits : List Char) : Nat :=
  digits.foldl (fun n c => n * base + digitValue c) 0

/-- Digits, between which single underscores may stand. -/
def groupedRest (base : Nat) : Reader (List Char) :=
  repeated (satisfy (isDigitOf base) <|> char '_' *> satisfy (isDigitOf base))

/-- One digit at least, with single underscores between digits. -/
def grouped (base : Nat) : Reader (List Char) := do
  let first ← satisfy (isDigitOf base)
  return first :: (← groupedRest base)

/-- A sign that may be there; the answer says whether it is a minus. -/
def signed : Reader Bool := do
  match ← optional? (satisfy fun c => c == '+' || c == '-') with
  | some c => return c == '-'
  | none => return false

/-- Decimal digits that begin with a zero only if there is no other digit. -/
def plainDecimal : Reader (List Char) :=
  (do
    let first ← satisfy fun c => isDigitOf 10 c && c != '0'
    return first :: (← groupedRest 10))
  <|> (do return [← satisfy (isDigitOf 10)])

/-- Whether an integer fits 64 bits. -/
def fits (n : Int) : Bool := -9223372036854775808 ≤ n && n ≤ 9223372036854775807

/-- An integer to a base that is announced by a letter behind a zero. -/
def basedInteger (letter : Char) (base : Nat) : Reader Int := do
  literal ['0', letter]
  let n : Int := numeral base (← grouped base)
  if fits n then return n else failure

/-- A decimal integer. -/
def decimalInteger : Reader Int := do
  let negative ← signed
  let n : Int := numeral 10 (← plainDecimal)
  let value := if negative then -n else n
  if fits value then return value else failure

/-- An integer. -/
def integer : Reader Int :=
  basedInteger 'x' 16 <|> basedInteger 'o' 8 <|> basedInteger 'b' 2 <|> decimalInteger

/-- The least number that rounds to infinity in double precision. -/
def roundsToInfinity : Nat := (Nat.pow 2 54 - 1) * Nat.pow 2 970

/-- Whether `mantissa` times ten to the power `exponent` rounds to infinity. -/
def overflows (mantissa : Nat) (exponent : Int) : Bool :=
  if mantissa = 0 then false
  else
    let magnitude := exponent + ((Nat.toDigits 10 mantissa).length : Int)
    if 400 < magnitude then true
    else if magnitude < 300 then false
    else if 0 ≤ exponent then roundsToInfinity ≤ mantissa * Nat.pow 10 exponent.toNat
    else roundsToInfinity * Nat.pow 10 (-exponent).toNat ≤ mantissa

/-- An exponent. -/
def exponent : Reader Int := do
  let _ ← satisfy fun c => c == 'e' || c == 'E'
  let negative ← signed
  let n : Int := numeral 10 (← grouped 10)
  return if negative then -n else n

/-- A fraction. -/
def fraction : Reader (List Char) := char '.' *> grouped 10

/-- A decimal number with a fraction or an exponent.  One that rounds to positive infinity is no
number; below, the infinity is what it rounds to. -/
def decimalFloat : Reader Unit := do
  let negative ← signed
  let whole ← plainDecimal
  let (digits, power) ←
    (do let e ← exponent; return (([] : List Char), e))
    <|> (do
      let digits ← fraction
      let e ← optional? exponent
      return (digits, e.getD 0))
  let mantissa := numeral 10 (whole ++ digits)
  if !negative && overflows mantissa (power - (digits.length : Int)) then failure
  else return ()

/-- One of the words for infinity and for what is no number. -/
def namedFloat : Reader Unit := do
  let _ ← signed
  literal ['i', 'n', 'f'] <|> literal ['n', 'a', 'n']

/-- A floating-point number. -/
def float : Reader Unit := decimalFloat <|> namedFloat

end ModelLabels.Toml
