import ModelLabels.Template.Token
/-! # Defects

Why a dollar sign that looks like the start of a directive does not start one.
-/

namespace ModelLabels
set_option autoImplicit false

/-- What would have been accepted in place of the reported token. -/
inductive Expected where
  | token (t : Token)
  /-- The brace that ends the route. -/
  | brace
  deriving Repr, DecidableEq

/-- An expectation as messages name it. -/
def Expected.text : Expected → String
  | token t => t.quoted
  | brace => "'\x7b'"

/-- The causes for which an attempted directive stays text. -/
inductive Defect where
  /-- A character that begins no token; messages show the whole route. -/
  | unexpectedCharacter (route : String)
  | unexpectedToken (found : Token) (expected : List Expected)
  /-- The route ends where a token is needed. -/
  | endsEarly (expected : List Expected)
  /-- No closing brace follows. -/
  | unclosed
  | emptyAttribute
  | invalidAttribute
  deriving Repr, DecidableEq

namespace Defect

/-- The wording of a defect. -/
def detail : Defect → String
  | unexpectedCharacter route => "unexpected character in prefix '" ++ route ++ "'"
  | unexpectedToken found _ => "unexpected " ++ found.quoted ++ " in prefix"
  | endsEarly _ => "prefix ends too early"
  | unclosed => "directive is missing '\x7d'"
  | emptyAttribute => "empty attribute name"
  | invalidAttribute => "invalid attribute name"

/-- What would have been accepted, where that is known. -/
def expected : Defect → List Expected
  | unexpectedToken _ expected | endsEarly expected => expected
  | _ => []

end Defect

end ModelLabels
