import ModelLabels.Model.Removal
/-! # Moving objects

Folders, concepts and views move between folders of the same kind, and diagram objects between
containers on the same view; no object moves below itself.  A moved object comes last of what its
new owner holds.
-/

namespace ModelLabels
set_option autoImplicit false

namespace Model

/-- Whether an object may be moved to a new owner. -/
def checkMove (m : Model) (k parent : Key) : Except EditError Unit := do
  let o ← m.require k
  match o.body with
  | .folder f =>
    if o.isTopLevel then throw (.topLevelFolder o.id)
    else
      let (holder, target) ← m.requireFolder parent
      if target.rootType ≠ f.rootType then throw (.folderMismatch holder.id f.name)
      else if m.isWithin parent k then throw (.cycle o.id)
      else return ()
  | .concept c => m.requireAccepting parent c.kind.category c.kind.label
  | .view v =>
    let (holder, target) ← m.requireFolder parent
    if target.isViewFolder then return ()
    else throw (.folderMismatch holder.id v.name)
  | .diagramObject d =>
    let (holder, view) ← m.requireContainer parent
    if view ≠ d.view then throw (.viewMismatch o.id holder.id)
    else if m.isWithin parent k then throw (.cycle o.id)
    else return ()
  | .connection _ => throw (.wrongKind o.id .movable)

end Model

/-- Move an object to a new owner. -/
def Edit.moveTo (k parent : Key) : Edit Unit := do
  check (·.checkMove k parent)
  modify (Model.unlinkTo .contains k)
  update k fun o => { o with owner := some parent }
  link .contains parent k
  bump

end ModelLabels
