import ModelLabels.Model.Edit
/-! # New models

A new model holds the nine top-level folders and nothing else.  A copy of a model has the same
contents, counters and version, and an instance number of its own.
-/

namespace ModelLabels.Model
set_option autoImplicit false

/-- Add the top-level folder of a type, with the name that folders of the type start with. -/
def addTopLevel (m : Model) (t : FolderType) : Model :=
  let (key, added) := m.create none (.folder ⟨.named t.defaultName, t, t⟩)
  { added with topLevel := added.topLevel ++ [(t, key)] }

/-- The model before its first folder is added; it has an identifier already. -/
def blank (instanceNumber : Nat) (name : String) : Model :=
  let unnamed : Model :=
    { toDescription := .named name, instanceNumber, id := "", objects := .empty, links := [],
      topLevel := [], usedIds := [], lastId := 0, lastSerial := 0, version := 0 }
  let (id, m) := unnamed.freshId
  { m.reserveId id with id }

/-- A new model of a given name. -/
def new (instanceNumber : Nat) (name : String) : Model :=
  FolderType.topLevel.foldl addTopLevel (blank instanceNumber name)

/-- A copy of a model. -/
def copy (instanceNumber : Nat) (m : Model) : Model := { m with instanceNumber }

end ModelLabels.Model
