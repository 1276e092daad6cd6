import ModelLabels.Template.Directive
/-! # Templates

A template is literal text with directives in it.  The text is read from left to right; a dollar
sign that starts no directive is literal text, and reading goes on behind it, so that nothing it is
followed by is lost.

* `Template.scan`: the segments of a text, with the defects of attempted directives.
* `Template.ofString`: the segments alone.
-/

namespace ModelLabels
set_option autoImplicit false

/-- A piece of a template. -/
inductive Segment where
  /-- Text that is rendered as it is written. -/
  | literal (text : String)
  | directive (d : Directive)
  deriving Repr, DecidableEq

/-- The pieces of a template in the order of the text. -/
structure Template where
  segments : List (Spanned Segment)
  deriving Repr, DecidableEq, Inhabited

namespace Segment

/-- The directive a segment is, with its place. -/
def directive? (s : Spanned Segment) : Option (Spanned Directive) :=
  match s.node with
  | directive d => some ⟨d, s.span⟩
  | literal _ => none

/-- The written form of a segment. -/
def text : Segment → String
  | literal t => t
  | directive d => d.text

/-- Put the literal character at byte `pos` in front of the segments that follow it. -/
def push (pos : Nat) (c : Char) : List (Spanned Segment) → List (Spanned Segment)
  | ⟨literal t, span⟩ :: rest => ⟨literal (String.singleton c ++ t), ⟨pos, span.stop⟩⟩ :: rest
  | segments => ⟨literal (String.singleton c), ⟨pos, pos + c.utf8Size⟩⟩ :: segments

end Segment

namespace Template

/-- The directives of a template in the order of the text. -/
def directives (t : Template) : List (Spanned Directive) :=
  t.segments.filterMap Segment.directive?

/-- Whether a template is plain text. -/
def isLiteral (t : Template) : Bool := t.directives.isEmpty

/-- What reading a text yields: its segments, and the defects of attempted directives. -/
structure Scan where
  segments : List (Spanned Segment)
  defects : List (Spanned Defect)

/-- The pieces of a text whose first byte is at `pos`. -/
def scanFrom (pos : Nat) (cs : List Char) : Scan :=
  match cs with
  | [] => ⟨[], []⟩
  | c :: rest =>
    if c = '$' then
      match _h : Directive.read pos rest with
      | .ok r =>
        let tail := scanFrom r.stop r.rest
        ⟨⟨.directive r.directive, ⟨pos, r.stop⟩⟩ :: tail.segments, tail.defects⟩
      | .error defect =>
        let tail := scanFrom (pos + c.utf8Size) rest
        ⟨Segment.push pos c tail.segments, defect.toList ++ tail.defects⟩
    else
      let tail := scanFrom (pos + c.utf8Size) rest
      ⟨Segment.push pos c tail.segments, tail.defects⟩
termination_by cs.length
decreasing_by
  · exact Nat.lt_succ_of_lt (Directive.length_rest_lt ‹_›)
  · exact Nat.lt_succ_self _
  · exact Nat.lt_succ_self _

/-- The pieces of a text. -/
def scan (text : String) : Scan := scanFrom 0 text.toList

/-- The template that a text stands for.  Every text is a template. -/
def ofString (text : String) : Template := ⟨(scan text).segments⟩

/-- The written form of a template. -/
def text (t : Template) : String := String.join (t.segments.map (·.node.text))

end Template

end ModelLabels
