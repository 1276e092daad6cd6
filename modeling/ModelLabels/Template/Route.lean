import ModelLabels.Taxonomy.RelationshipType
/-! # Routes

The text between the dollar sign and the brace of a directive says which way to go from the root
object: nowhere, along one of seven keywords, or along the first relationship of a kind to one of
its ends.  `Keyword.letters_injective` says that no two keywords are written alike.
-/

namespace ModelLabels
set_option autoImplicit false

/-- The words that take one step from an object. -/
inductive Keyword where
  | source | target | parent | modelFolder | viewFolder | view | model
  deriving Repr, DecidableEq

namespace Keyword

/-- All keywords, in the order messages list them. -/
def all : List Keyword := [source, target, parent, modelFolder, viewFolder, view, model]

theorem mem_all (k : Keyword) : k ∈ all := by cases k <;> decide

/-- The letters of a keyword, in lower case. -/
def letters : Keyword → List Char
  | source => ['s', 'o', 'u', 'r', 'c', 'e']
  | target => ['t', 'a', 'r', 'g', 'e', 't']
  | parent => ['p', 'a', 'r', 'e', 'n', 't']
  | modelFolder => ['m', 'f', 'o', 'l', 'd', 'e', 'r']
  | viewFolder => ['v', 'f', 'o', 'l', 'd', 'e', 'r']
  | view => ['v', 'i', 'e', 'w']
  | model => ['m', 'o', 'd', 'e', 'l']

/-- The written form of a keyword. -/
def text (k : Keyword) : String := String.ofList k.letters

theorem letters_injective {k l : Keyword} (h : k.letters = l.letters) : k = l := by
  cases k <;> cases l <;> first | rfl | exact absurd h (by decide)

end Keyword

/-- One of the two ends of a relationship. -/
inductive Endpoint where
  | source | target
  deriving Repr, DecidableEq

namespace Endpoint

/-- The keyword for an end. -/
def keyword : Endpoint → Keyword
  | source => .source
  | target => .target

/-- The written form of an end. -/
def text (e : Endpoint) : String := e.keyword.text

/-- The component of a pair of ends. -/
def pick {α : Type} : Endpoint → α × α → α
  | source, ends => ends.1
  | target, ends => ends.2

end Endpoint

/-- The word in front of the colon of a route. -/
inductive Relation where
  | known (type : RelationshipType)
  /-- A word that is the keyword of no relationship type, and so never matches. -/
  | unknown (keyword : String)
  deriving Repr, DecidableEq

namespace Relation

/-- The relation a word stands for. -/
def ofKeyword (word : String) : Relation :=
  match RelationshipType.ofKeyword? word with
  | some type => known type
  | none => unknown word

/-- The written form of a relation. -/
def text : Relation → String
  | known type => type.keyword
  | unknown keyword => keyword

end Relation

/-- The way a directive takes from the root object. -/
inductive Route where
  /-- The root object itself. -/
  | current
  | along (keyword : Keyword)
  /-- An end of the first relationship of a kind that touches the concept. -/
  | related (relation : Relation) (endpoint : Endpoint)
  deriving Repr, DecidableEq

namespace Route

/-- The written form of a route. -/
def text : Route → String
  | current => ""
  | along keyword => keyword.text
  | related relation endpoint => relation.text ++ ":" ++ endpoint.text

end Route

end ModelLabels
