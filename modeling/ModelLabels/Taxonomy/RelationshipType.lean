/-! # Relationship types

The kinds of relationship.  Each is written in templates by a keyword, which is recognised in any
mixture of ASCII upper and lower case.
-/

namespace ModelLabels
set_option autoImplicit false

/-- The kind of a relationship. -/
inductive RelationshipType where
  | composition | aggregation | assignment | realization | serving | access | influence
  | triggering | flow | specialization | association
  deriving Repr, DecidableEq, Hashable

namespace RelationshipType

/-- All relationship types, in the order messages list them. -/
def all : List RelationshipType :=
  [.composition, .aggregation, .assignment, .realization, .serving, .access, .influence,
   .triggering, .flow, .specialization, .association]

theorem mem_all (t : RelationshipType) : t ∈ all := by cases t <;> decide

/-- The word for the type in `$keyword:source{…}` directives. -/
def keyword : RelationshipType → String
  | composition => "composition"
  | aggregation => "aggregation"
  | assignment => "assignment"
  | realization => "realization"
  | serving => "serving"
  | access => "access"
  | influence => "influence"
  | triggering => "triggering"
  | flow => "flow"
  | specialization => "specialization"
  | association => "association"

/-- The label shown to readers. -/
def label : RelationshipType → String
  | composition => "Composition relation"
  | aggregation => "Aggregation relation"
  | assignment => "Assignment relation"
  | realization => "Realization relation"
  | serving => "Serving relation"
  | access => "Access relation"
  | influence => "Influence relation"
  | triggering => "Triggering relation"
  | flow => "Flow relation"
  | specialization => "Specialization relation"
  | association => "Association relation"

/-- The type's name as one word. -/
def name : RelationshipType → String
  | composition => "Composition"
  | aggregation => "Aggregation"
  | assignment => "Assignment"
  | realization => "Realization"
  | serving => "Serving"
  | access => "Access"
  | influence => "Influence"
  | triggering => "Triggering"
  | flow => "Flow"
  | specialization => "Specialization"
  | association => "Association"

/-- The relationship type of a given one-word name. -/
def ofName? (s : String) : Option RelationshipType := all.find? (·.name = s)

/-- Whether two texts agree up to the case of ASCII letters. -/
def sameIgnoringCase (s t : String) : Bool :=
  s.toList.map Char.toLower == t.toList.map Char.toLower

/-- The relationship type a keyword stands for; only a whole keyword stands for one. -/
def ofKeyword? (s : String) : Option RelationshipType :=
  all.find? fun t => sameIgnoringCase t.keyword s

end RelationshipType

end ModelLabels
