/-! # Readers

A reader takes a value off the front of a text, or fails and takes nothing.  Alternatives are tried
one after the other, each from the start of the text.

`many` repeats a reader for as long as it succeeds and takes something, which the length of the rest
bounds.
-/

namespace ModelLabels
set_option autoImplicit false

/-- What takes a value off the front of a text, or fails. -/
abbrev Reader (α : Type) := StateT (List Char) Option α

namespace Reader

variable {α β : Type}

/-- The next character, which stays where it is. -/
def peek? : Reader (Option Char) := fun cs => some (cs.head?, cs)

/-- Take a character of a class. -/
def satisfy (p : Char → Bool) : Reader Char := fun cs =>
  match cs with
  | c :: rest => if p c then some (c, rest) else none
  | [] => none

/-- Take a given character. -/
def char (c : Char) : Reader Unit := fun cs =>
  match cs with
  | d :: rest => if d = c then some ((), rest) else none
  | [] => none

/-- Take given characters. -/
def literal : List Char → Reader Unit
  | [] => pure ()
  | c :: rest => do
    char c
    literal rest

/-- Take all characters up to the first one outside a class. -/
def takeWhile (p : Char → Bool) : Reader (List Char) := fun cs =>
  some (cs.takeWhile p, cs.dropWhile p)

/-- Succeed at the end of the text only. -/
def atEnd : Reader Unit := fun cs => if cs.isEmpty then some ((), []) else none

/-- Read what may be there. -/
def optional? (r : Reader α) : Reader (Option α) := fun cs =>
  match r cs with
  | some (a, rest) => some (some a, rest)
  | none => some (none, cs)

/-- Read again and again, until the reader fails or takes nothing. -/
def many (r : Reader α) (cs : List Char) : Option (List α × List Char) :=
  match r cs with
  | none => some ([], cs)
  | some (a, rest) =>
    if _h : rest.length < cs.length then
      match many r rest with
      | some (more, rest) => some (a :: more, rest)
      | none => none
    else some ([a], rest)
termination_by cs.length

/-- Repeat a reader; always succeeds. -/
def repeated (r : Reader α) : Reader (List α) := many r

/-- Read values with separators between them, possibly none. -/
def separated (r : Reader α) (separator : Reader β) : Reader (List α) := do
  match ← optional? r with
  | none => return []
  | some first => return first :: (← repeated (separator *> r))

/-- Read a given number of times. -/
def times (n : Nat) (r : Reader α) : Reader (List α) :=
  match n with
  | 0 => return []
  | n + 1 => do
    let first ← r
    return first :: (← times n r)

/-- The value of a text that is read to its end. -/
def all? (r : Reader α) (cs : List Char) : Option α :=
  match r cs with
  | some (a, []) => some a
  | _ => none

end Reader

end ModelLabels
