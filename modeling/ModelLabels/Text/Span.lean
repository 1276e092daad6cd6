/-! # Byte spans

Positions in a text are counted in bytes of its UTF-8 form.  A span is a half-open byte range.

* `utf8Length_append`, `utf8Length_cons`: the length of a text in bytes is additive.
* `charIndex`: the number of characters that begin before a byte position, which turns a byte
  position into a character position.
-/

namespace ModelLabels
set_option autoImplicit false

/-- A half-open range of byte positions in a text. -/
structure Span where
  start : Nat
  stop : Nat
  deriving Repr, DecidableEq, Inhabited

namespace Span

/-- The written form of a span in messages, as in `4..7`. -/
def text (s : Span) : String := toString s.start ++ ".." ++ toString s.stop

end Span

/-- A value together with the place in the text it was read from. -/
structure Spanned (α : Type) where
  node : α
  span : Span
  deriving Repr, DecidableEq

/-! ## Lengths in bytes -/

/-- The number of bytes of the UTF-8 form of a list of characters. -/
def utf8Length : List Char → Nat
  | [] => 0
  | c :: cs => c.utf8Size + utf8Length cs

@[simp] theorem utf8Length_nil : utf8Length [] = 0 := rfl

@[simp] theorem utf8Length_cons (c : Char) (cs : List Char) :
    utf8Length (c :: cs) = c.utf8Size + utf8Length cs := rfl

@[simp] theorem utf8Length_append (cs ds : List Char) :
    utf8Length (cs ++ ds) = utf8Length cs + utf8Length ds := by
  induction cs with
  | nil => simp
  | cons c cs ih => simp [ih, Nat.add_assoc]

/-- Only the empty text has no bytes. -/
theorem utf8Length_eq_zero {cs : List Char} : utf8Length cs = 0 ↔ cs = [] := by
  cases cs with
  | nil => simp
  | cons c cs =>
    have := c.utf8Size_pos
    simp only [utf8Length_cons, reduceCtorEq, iff_false]
    omega

/-! ## Characters before a byte -/

/-- How many characters of the text begin before byte `byte`, when the first begins at `start`. -/
def charIndex (byte start : Nat) : List Char → Nat
  | [] => 0
  | c :: cs => if start < byte then charIndex byte (start + c.utf8Size) cs + 1 else 0

/-- At the end of an initial part, the characters before are those of that part. -/
theorem charIndex_append (cs ds : List Char) (start : Nat) :
    charIndex (start + utf8Length cs) start (cs ++ ds) = cs.length := by
  induction cs generalizing start with
  | nil => cases ds <;> simp [charIndex]
  | cons c cs ih =>
    have hc := c.utf8Size_pos
    have h : start < start + utf8Length (c :: cs) := by simp only [utf8Length_cons]; omega
    rw [List.cons_append, charIndex, if_pos h, utf8Length_cons, ← Nat.add_assoc, ih]
    rfl

/-- The character range that covers the same text as a byte span. -/
def Span.toChars (s : Span) (text : List Char) : Span :=
  ⟨charIndex s.start 0 text, charIndex s.stop 0 text⟩

end ModelLabels
