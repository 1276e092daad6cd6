/-! # Categories of concepts

The taxonomy sorts elements into eight categories and keeps relationships in one of their own.
-/

namespace ModelLabels
set_option autoImplicit false

/-- The part of the taxonomy a concept belongs to. -/
inductive Category where
  | strategy | business | application | technology | physical | motivation
  | implementationMigration | other | relations
  deriving Repr, DecidableEq, Hashable

namespace Category

/-- All categories. -/
def all : List Category :=
  [.strategy, .business, .application, .technology, .physical, .motivation,
   .implementationMigration, .other, .relations]

/-- The category's name as one word. -/
def name : Category → String
  | strategy => "Strategy"
  | business => "Business"
  | application => "Application"
  | technology => "Technology"
  | physical => "Physical"
  | motivation => "Motivation"
  | implementationMigration => "ImplementationMigration"
  | other => "Other"
  | relations => "Relations"

/-- The category of a given one-word name. -/
def ofName? (s : String) : Option Category := all.find? (·.name = s)

end Category

end ModelLabels
