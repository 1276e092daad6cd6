import ModelLabels.Model.Creation
import ModelLabels.Model.Operation
/-! # Workspaces

A workspace holds models by name and gives every model that is made in it an instance number of its
own, copies included.  They stay below `2 ^ 64`, as the counters of a model do.
-/

namespace ModelLabels
set_option autoImplicit false

/-- Models by name, and the next instance number. -/
structure Workspace where
  models : List (String × Model)
  nextInstance : Nat

namespace Workspace

/-- The workspace without models. -/
def empty : Workspace := ⟨[], 1⟩

/-- The model of a name. -/
def get? (w : Workspace) (name : String) : Option Model :=
  (w.models.find? (·.1 = name)).map (·.2)

/-- Keep a model under a name, in place of the one that has the name already. -/
def put (w : Workspace) (name : String) (m : Model) : Workspace :=
  { w with models := (name, m) :: w.models.filter (·.1 ≠ name) }

/-- Keep a model that is made with the next instance number. -/
def make (w : Workspace) (name : String) (build : Nat → Model) : Workspace :=
  { w.put name (build w.nextInstance) with nextInstance := w.nextInstance + 1 }

/-- Make a new model with a given title. -/
def create (w : Workspace) (name title : String) : Workspace :=
  w.make name fun n => Model.new n title

/-- Make a copy of a model under a name. -/
def copy (w : Workspace) (name : String) (m : Model) : Workspace :=
  w.make name fun n => m.copy n

end Workspace

end ModelLabels
