import ModelLabels.Template.Defect
/-! # The grammar of routes

A route is empty, a keyword, or an identifier, a colon and one of the two ends.  The first token
that continues no route is reported, with what would have continued one.

* `Route.ofTokens`: the route a list of tokens stands for, or the first token out of place.
* `Route.read`: the same for a text.
-/

namespace ModelLabels
set_option autoImplicit false

/-- The end a keyword names, if it names one. -/
def Keyword.endpoint? : Keyword → Option Endpoint
  | source => some .source
  | target => some .target
  | _ => none

/-- The end a token names, if it names one. -/
def Token.endpoint? : Token → Option Endpoint
  | keyword k => k.endpoint?
  | _ => none

namespace Route

/-- What may follow an identifier. -/
def afterIdent : List Expected := [.token .colon]

/-- What may follow an identifier and a colon. -/
def afterColon : List Expected := [.token (.keyword .source), .token (.keyword .target)]

/-- What messages suggest at the start of a route. -/
def atStart : List Expected := Keyword.all.map fun k => .token (.keyword k)

/-- The report for a place where one of `expected` is needed: the token that stands there, or the
end of the route at byte `stop`. -/
def misplaced (stop : Nat) (expected : List Expected) : List (Spanned Token) → Spanned Defect
  | [] => ⟨.endsEarly expected, ⟨stop, stop⟩⟩
  | t :: _ => ⟨.unexpectedToken t.node expected, t.span⟩

/-- A complete route must be the last thing before the brace. -/
def complete (stop : Nat) (route : Route) (rest : List (Spanned Token)) :
    Except (Spanned Defect) Route :=
  match rest with
  | [] => .ok route
  | _ :: _ => .error (misplaced stop [.brace] rest)

/-- The route that goes on after an identifier and a colon. -/
def ofEnd (stop : Nat) (name : String) (tokens : List (Spanned Token)) :
    Except (Spanned Defect) Route :=
  match tokens with
  | [] => .error (misplaced stop afterColon tokens)
  | t :: rest =>
    match t.node.endpoint? with
    | some endpoint => complete stop (related (Relation.ofKeyword name) endpoint) rest
    | none => .error (misplaced stop afterColon tokens)

/-- The route that goes on after an identifier. -/
def ofColon (stop : Nat) (name : String) (tokens : List (Spanned Token)) :
    Except (Spanned Defect) Route :=
  match tokens with
  | ⟨.colon, _⟩ :: rest => ofEnd stop name rest
  | _ => .error (misplaced stop afterIdent tokens)

/-- The route that tokens stand for, when the text they come from ends at byte `stop`. -/
def ofTokens (stop : Nat) (tokens : List (Spanned Token)) : Except (Spanned Defect) Route :=
  match tokens with
  | [] => .ok current
  | ⟨.keyword k, _⟩ :: rest => complete stop (along k) rest
  | ⟨.ident name, _⟩ :: rest => ofColon stop name rest
  | ⟨.colon, _⟩ :: _ => .error (misplaced stop atStart tokens)

/-- The route that a text stands for, when its first byte is at `start`. -/
def read (start : Nat) (cs : List Char) : Except (Spanned Defect) Route :=
  match Token.lexFrom start cs with
  | .error span => .error ⟨.unexpectedCharacter (String.ofList cs), span⟩
  | .ok tokens => ofTokens (start + utf8Length cs) tokens

end Route

end ModelLabels
