import ModelLabels.Model.Creation
import ModelLabels.Model.Operation
/-! # The sample model

A small model with identifiers that stay the same: a customer and a client, the relationship between
them, a portal that serves the client, two views, and the diagram of it all on the main view.
-/

namespace ModelLabels.Sample
set_option autoImplicit false

open Edit in
/-- The steps that make the sample model out of a new one. -/
def build : Edit Unit := do
  setModelDocumentation "Sample model for label templates"
  setModelProperty "Owner" "Architecture Team"

  let customer ← addElement .businessActor "Customer"
  setId customer "customer"
  setDocumentation customer "A person buying our products"
  setProperty customer "Segment" "Retail"
  let client ← addElement .businessRole "Client"
  setId client "client"
  let assignment ← addRelationship .assignment customer client
  setId assignment "assignment"
  let portal ← addElement .applicationComponent "Web Portal"
  setId portal "portal"
  let serving ← addRelationship .serving portal client
  setId serving "serving"

  let details ← addView "Details"
  setId details "detail-view"
  let views ← check fun m =>
    match m.owner? details with
    | some folder => .ok folder
    | none => .error (.unknownKey details)
  let overview ← addFolder views "Overview"
  setId overview "overview"
  let mainView ← addViewIn overview "Main View"
  setId mainView "main-view"

  let customerObject ← addElementObject mainView customer
  setId customerObject "customer-obj"
  let clientObject ← addElementObject mainView client
  setId clientObject "client-obj"
  let assignmentLine ← addRelationshipConnection assignment customerObject clientObject
  setId assignmentLine "assignment-conn"
  let group ← addGroup mainView "Front Office"
  setId group "group"
  let portalObject ← addElementObject group portal
  setId portalObject "portal-obj"
  let note ← addNote mainView "Customers are served through the portal"
  setId note "note"
  let noteLine ← addConnection note customerObject
  setId noteLine "note-conn"
  let reference ← addReference mainView details
  setId reference "detail-ref"

/-- The sample model, with a given instance number. -/
def model (instanceNumber : Nat) : Model :=
  match build (Model.new instanceNumber "Sample") with
  | .ok _ m | .error _ m => m

end ModelLabels.Sample
