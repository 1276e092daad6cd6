import ModelLabels.Taxonomy.Category
/-! # Folder types

A model has nine fixed top-level folders.  `forCategory` says which of them holds the concepts of a
category; `forCategory_ne_views` says that none of them is the folder of the views.
-/

namespace ModelLabels
set_option autoImplicit false

/-- The role of a folder: one of the nine top-level folders, or a folder made by the user. -/
inductive FolderType where
  | strategy | business | application | technology | motivation | implementationMigration
  | other | relations | views | user
  deriving Repr, DecidableEq, Hashable

namespace FolderType

/-- The types of the top-level folders, in the order in which a model creates them. -/
def topLevel : List FolderType :=
  [.strategy, .business, .application, .technology, .motivation, .implementationMigration,
   .other, .relations, .views]

/-- All folder types. -/
def all : List FolderType := topLevel ++ [.user]

/-- Every type but that of user folders is that of a top-level folder. -/
theorem mem_topLevel {t : FolderType} : t ∈ topLevel ↔ t ≠ .user := by cases t <;> decide

/-- The type's name as one word. -/
def name : FolderType → String
  | strategy => "Strategy"
  | business => "Business"
  | application => "Application"
  | technology => "Technology"
  | motivation => "Motivation"
  | implementationMigration => "ImplementationMigration"
  | other => "Other"
  | relations => "Relations"
  | views => "Views"
  | user => "User"

/-- The folder type of a given one-word name. -/
def ofName? (s : String) : Option FolderType := all.find? (·.name = s)

/-- The name a folder of this type starts with. -/
def defaultName : FolderType → String
  | strategy => "Strategy"
  | business => "Business"
  | application => "Application"
  | technology => "Technology & Physical"
  | motivation => "Motivation"
  | implementationMigration => "Implementation & Migration"
  | other => "Other"
  | relations => "Relations"
  | views => "Views"
  | user => "New Folder"

/-- The top-level folder that holds the concepts of a category. -/
def forCategory : Category → FolderType
  | .strategy => strategy
  | .business => business
  | .application => application
  | .technology | .physical => technology
  | .motivation => motivation
  | .implementationMigration => implementationMigration
  | .other => other
  | .relations => relations

/-- Concepts are never kept among the views. -/
theorem forCategory_ne_views (c : Category) : forCategory c ≠ views := by cases c <;> decide

/-- The folder for a category is a top-level folder. -/
theorem forCategory_mem_topLevel (c : Category) : forCategory c ∈ topLevel := by
  cases c <;> decide

end FolderType

end ModelLabels
