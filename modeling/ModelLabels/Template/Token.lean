import ModelLabels.Text.Span
import ModelLabels.Template.Route
/-! # Tokens of a route

A route is divided into tokens, each time the longest one that the remaining text begins with; a
text that is both a keyword and an identifier is the keyword.  Keywords are recognised up to simple
case folding.  Nothing is skipped, so a blank is an error.

* `Token.ofLexeme?`: the token that a whole text is, if it is one.
* `Token.longest`: how many characters the longest token at the head of a text has.
* `Token.lex`: the tokens of a text with their spans, or the span of the first character that begins
  no token.
-/

namespace ModelLabels
set_option autoImplicit false

/-- A token of a route. -/
inductive Token where
  | keyword (k : Keyword)
  | colon
  | ident (name : String)
  deriving Repr, DecidableEq

/-- The simple case folding of a character, as far as ASCII letters are its result. -/
def foldCase (c : Char) : Char :=
  if c = 'ſ' then 's' else if c = '\u212a' then 'k' else c.toLower

/-- Whether a text is a keyword up to case folding. -/
def Keyword.isSpelledBy (k : Keyword) (cs : List Char) : Bool := cs.map foldCase == k.letters

/-- The characters an identifier may begin with. -/
def isIdentStart (c : Char) : Bool := c.isAlpha || c == '_'

/-- The characters an identifier may go on with. -/
def isIdentRest (c : Char) : Bool := c.isAlphanum || c == '_'

/-- Whether a text is an identifier. -/
def isIdent : List Char → Bool
  | [] => false
  | c :: cs => isIdentStart c && cs.all isIdentRest

namespace Token

/-- The token a whole text is, keywords first. -/
def ofLexeme? (cs : List Char) : Option Token :=
  match Keyword.all.find? (·.isSpelledBy cs) with
  | some k => some (keyword k)
  | none =>
    if cs = [':'] then some colon
    else if isIdent cs then some (ident (String.ofList cs))
    else none

/-- The length of the keyword at the head of a text, or zero. -/
def keywordLength (cs : List Char) : Nat :=
  match Keyword.all.find? fun k => k.isSpelledBy (cs.take k.letters.length) with
  | some k => k.letters.length
  | none => 0

/-- The length of the identifier at the head of a text, or zero. -/
def identLength : List Char → Nat
  | [] => 0
  | c :: cs => if isIdentStart c then (cs.takeWhile isIdentRest).length + 1 else 0

/-- The length of the longest token at the head of a text; one where there is none. -/
def longest (cs : List Char) : Nat := max 1 (max (keywordLength cs) (identLength cs))

theorem longest_pos (cs : List Char) : 0 < longest cs := by unfold longest; omega

/-- The longest token at the head of a text, with its characters. -/
@[irreducible] def head? (cs : List Char) : Option (Token × List Char) :=
  (ofLexeme? (cs.take (longest cs))).map fun token => (token, cs.take (longest cs))

/-- A token at the head of a text consists of its first characters, of which there is at least one. -/
theorem head?_eq_some {cs : List Char} {token : Token} {lexeme : List Char}
    (h : head? cs = some (token, lexeme)) :
    lexeme = cs.take (longest cs) ∧ ofLexeme? lexeme = some token := by
  unfold head? at h
  obtain ⟨t, ht, he⟩ := Option.map_eq_some_iff.1 h
  obtain ⟨rfl, rfl⟩ := Prod.mk.inj he
  exact ⟨rfl, ht⟩

/-- What follows the token at the head of a text is shorter than the text. -/
theorem length_drop_lt {c : Char} {rest lexeme : List Char} {token : Token}
    (h : head? (c :: rest) = some (token, lexeme)) :
    ((c :: rest).drop lexeme.length).length < (c :: rest).length := by
  have hpos := longest_pos (c :: rest)
  rw [(head?_eq_some h).1, List.length_drop, List.length_take, List.length_cons]
  omega

/-- The tokens of a text whose first byte is at `pos`. -/
def lexFrom (pos : Nat) (cs : List Char) : Except Span (List (Spanned Token)) :=
  match cs with
  | [] => .ok []
  | c :: rest =>
    match _h : head? (c :: rest) with
    | none => .error ⟨pos, pos + c.utf8Size⟩
    | some (token, lexeme) =>
      match lexFrom (pos + utf8Length lexeme) ((c :: rest).drop lexeme.length) with
      | .ok tokens => .ok (⟨token, ⟨pos, pos + utf8Length lexeme⟩⟩ :: tokens)
      | .error span => .error span
termination_by cs.length
decreasing_by exact length_drop_lt ‹_›

/-- The tokens of a text. -/
def lex (cs : List Char) : Except Span (List (Spanned Token)) := lexFrom 0 cs

/-- The text a token stands for. -/
def text : Token → String
  | keyword k => k.text
  | colon => ":"
  | ident name => name

/-- A token as messages name it, between single quotes. -/
def quoted (t : Token) : String := "'" ++ t.text ++ "'"

end Token

end ModelLabels
