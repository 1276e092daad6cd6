import ModelLabels.Model.Key
/-! # Errors of changes

Why a change to a model is refused.  A refused change leaves the model as it was.
-/

namespace ModelLabels
set_option autoImplicit false

/-- What a change needs an object to be. -/
inductive Requirement where
  | folder
  | concept
  | element
  | relationship
  | view
  | container
  | component
  | connection
  | note
  | nameable
  | documentable
  | propertyHolder
  | movable
  deriving Repr, DecidableEq

/-- A requirement as messages name it. -/
def Requirement.text : Requirement → String
  | folder => "a folder"
  | concept => "a concept"
  | element => "an element"
  | relationship => "a relationship"
  | view => "a view"
  | container => "a view or diagram object"
  | component => "a diagram component"
  | connection => "a connection"
  | note => "a note"
  | nameable => "nameable"
  | documentable => "documentable"
  | propertyHolder => "a property holder"
  | movable => "movable"

/-- The causes for which a change is refused. -/
inductive EditError where
  /-- No object is under the key. -/
  | unknownKey (key : Key)
  /-- The identifier is in use. -/
  | duplicateId (id : String)
  | emptyId
  | wrongKind (id : String) (expected : Requirement)
  /-- The folder cannot hold what was to be put into it. -/
  | folderMismatch (folder what : String)
  /-- Two objects are on different views. -/
  | viewMismatch (first second : String)
  /-- The object would own itself. -/
  | cycle (id : String)
  /-- Top-level folders are neither moved nor removed. -/
  | topLevelFolder (id : String)
  deriving Repr, DecidableEq

/-- The wording of an error. -/
def EditError.message : EditError → String
  | unknownKey key => "no object with key " ++ key.text
  | duplicateId id => "duplicate identifier '" ++ id ++ "'"
  | emptyId => "identifier must not be empty"
  | wrongKind id expected => "object '" ++ id ++ "' is not " ++ expected.text
  | folderMismatch folder what => "folder '" ++ folder ++ "' cannot hold " ++ what
  | viewMismatch first second =>
    "'" ++ first ++ "' and '" ++ second ++ "' are not on the same view"
  | cycle id => "cannot move '" ++ id ++ "' into its own subtree"
  | topLevelFolder id => "top-level folder '" ++ id ++ "' cannot be removed or moved"

end ModelLabels
