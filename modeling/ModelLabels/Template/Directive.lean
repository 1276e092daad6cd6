import ModelLabels.Text.Blank
import ModelLabels.Template.Attribute
import ModelLabels.Template.RouteGrammar
/-! # Directives

A directive is a dollar sign, a route, and an attribute between braces.  Reading starts behind a
dollar sign: the route is what stands before the next opening brace, the attribute what stands
between that brace and the next closing one.

* `Directive.read`: the directive behind a dollar sign, or why there is none.
* `Directive.length_rest_lt`: what is left over is shorter than what was read from.
-/

namespace ModelLabels
set_option autoImplicit false

/-- A route and the attribute to render at its end. -/
structure Directive where
  route : Spanned Route
  attr : Spanned Attribute
  deriving Repr, DecidableEq

namespace Directive

/-- The written form of a directive. -/
def text (d : Directive) : String :=
  "$" ++ d.route.node.text ++ "\x7b" ++ d.attr.node.text ++ "\x7d"

/-- A directive with the byte behind it and the text that follows it. -/
structure Reading where
  directive : Directive
  stop : Nat
  rest : List Char

/-- Whether a text delimits a route before any brace opens, so that no directive is attempted. -/
def isCut (cs : List Char) : Bool := cs.any fun c => c == '$' || c == '\x7d'

/-- The attribute behind an opening brace at byte `opening`, and the text after its closing brace. -/
def readAttribute (dollar opening : Nat) (cs : List Char) :
    Except (Spanned Defect) (Spanned Attribute × List Char) :=
  let inside := cs.takeWhile (· != '\x7d')
  let closing := opening + 1 + utf8Length inside
  match cs.dropWhile (· != '\x7d') with
  | [] => .error ⟨.unclosed, ⟨dollar, closing⟩⟩
  | _ :: rest =>
    match Attribute.ofChars? inside with
    | some attr => .ok (⟨attr, ⟨opening + 1, closing⟩⟩, rest)
    | none =>
      let defect := if inside.isEmpty then Defect.emptyAttribute else .invalidAttribute
      .error ⟨defect, ⟨opening, closing + 1⟩⟩

/-- The directive behind the dollar sign at byte `dollar`.  Without one, the answer holds a defect if
the text looks like an attempt at a directive; a route with a blank in it does not. -/
def read (dollar : Nat) (cs : List Char) : Except (Option (Spanned Defect)) Reading :=
  let routeText := cs.takeWhile (· != '\x7b')
  let opening := dollar + 1 + utf8Length routeText
  match cs.dropWhile (· != '\x7b') with
  | [] => .error none
  | _ :: body =>
    if isCut routeText then .error none
    else
      match Route.read (dollar + 1) routeText with
      | .error defect => .error (if routeText.any isBlank then none else some defect)
      | .ok route =>
        match readAttribute dollar opening body with
        | .error defect => .error (some defect)
        | .ok (attr, rest) =>
          .ok ⟨⟨⟨route, ⟨dollar + 1, opening⟩⟩, attr⟩, attr.span.stop + 1, rest⟩

/-- What follows the first character outside a class is shorter than the text. -/
theorem length_lt_of_dropWhile_eq {p : Char → Bool} {cs rest : List Char} {c : Char}
    (h : cs.dropWhile p = c :: rest) : rest.length < cs.length := by
  have hle := (List.dropWhile_suffix p (l := cs)).length_le
  rw [h, List.length_cons] at hle
  omega

/-- Reading an attribute leaves less text than it was given. -/
theorem length_rest_lt_of_readAttribute {dollar opening : Nat} {cs rest : List Char}
    {attr : Spanned Attribute}
    (h : readAttribute dollar opening cs = .ok (attr, rest)) : rest.length < cs.length := by
  unfold readAttribute at h
  simp only at h
  split at h
  · cases h
  · rename_i c tail hdrop
    split at h
    · cases h
      exact length_lt_of_dropWhile_eq hdrop
    · cases h

/-- Reading a directive leaves less text than it was given. -/
theorem length_rest_lt {dollar : Nat} {cs : List Char} {r : Reading} (h : read dollar cs = .ok r) :
    r.rest.length < cs.length := by
  unfold read at h
  simp only at h
  split at h
  · cases h
  · rename_i c body hdrop
    split at h
    · cases h
    · split at h
      · cases h
      · split at h
        · cases h
        · rename_i hattr
          cases h
          exact Nat.lt_trans (length_rest_lt_of_readAttribute hattr)
            (length_lt_of_dropWhile_eq hdrop)

end Directive

end ModelLabels
