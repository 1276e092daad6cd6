import ModelLabels.Template.Basic
/-! # Warnings

What a reader of a template is told about: attempted directives that stay text, and directives that
can render nothing because their relation or their attribute is unknown.

`check` lists the warnings of a template by position.
-/

namespace ModelLabels
set_option autoImplicit false

/-- A problem of a template, with its place. -/
inductive Warning where
  /-- A dollar sign that looks like a directive and stays text. -/
  | malformed (defect : Defect) (span : Span)
  /-- A word that is no relationship keyword. -/
  | unknownRelation (keyword : String) (span : Span)
  /-- A word that names no attribute. -/
  | unknownAttribute (word : String) (span : Span)
  deriving Repr, DecidableEq

namespace Warning

/-- The place a warning is about. -/
def span : Warning → Span
  | malformed _ span | unknownRelation _ span | unknownAttribute _ span => span

/-- The wording of a warning. -/
def message : Warning → String
  | malformed defect span => "malformed directive at " ++ span.text ++ ": " ++ defect.detail
  | unknownRelation keyword span =>
    "unknown relationship keyword '" ++ keyword ++ "' at " ++ span.text
  | unknownAttribute word span => "unsupported attribute '" ++ word ++ "' at " ++ span.text

/-- The comment written at the marked place of a report. -/
def comment : Warning → String
  | malformed defect _ => defect.detail ++ "; kept as text"
  | unknownRelation _ _ => "never matches; renders empty"
  | unknownAttribute _ _ => "renders empty"

/-- The words that would be accepted, for the last line of a report. -/
def note? : Warning → Option String
  | malformed defect _ =>
    if defect.expected.isEmpty then none
    else some ("Expected: " ++ ", ".intercalate (defect.expected.map Expected.text))
  | unknownRelation _ _ =>
    some ("Relationship keywords: "
      ++ ", ".intercalate (RelationshipType.all.map RelationshipType.keyword))
  | unknownAttribute _ _ =>
    some ("Attributes: " ++ ", ".intercalate (Attribute.named.map Attribute.text)
      ++ ", property:KEY")

end Warning

namespace Directive

/-- The warning about a relation that never matches; its place is the word before the colon. -/
def relationWarnings (d : Directive) : List Warning :=
  match d.route.node with
  | .related (.unknown keyword) _ =>
    let start := d.route.span.start
    [.unknownRelation keyword ⟨start, start + keyword.utf8ByteSize⟩]
  | _ => []

/-- The warning about a word that names no attribute. -/
def attributeWarnings (d : Directive) : List Warning :=
  match d.attr.node with
  | .unknown word => [.unknownAttribute word d.attr.span]
  | _ => []

/-- The warnings about a well-formed directive. -/
def warnings (d : Directive) : List Warning := d.relationWarnings ++ d.attributeWarnings

end Directive

namespace Template

/-- The warnings about the directives of a template and about its attempted directives, the latter
first. -/
def unsortedWarnings (s : Scan) : List Warning :=
  s.defects.map (fun d => .malformed d.node d.span)
    ++ (Template.mk s.segments).directives.flatMap (·.node.warnings)

/-- The warnings about a template, by the place where they start. -/
def check (text : String) : List Warning :=
  (unsortedWarnings (scan text)).mergeSort fun a b => a.span.start ≤ b.span.start

end Template

end ModelLabels
