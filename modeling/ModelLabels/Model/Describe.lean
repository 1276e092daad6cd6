import ModelLabels.Model.Edit
/-! # Describing objects

Names, documentation, properties and the text of notes can be changed without a change of structure.
An element object is described by its element and a reference by its view, so changing one of them
changes what it stands for.  Identifiers belong to each object itself.
-/

namespace ModelLabels
set_option autoImplicit false

/-- The object whose description is that of the object under a key. -/
def Model.describedBy (m : Model) (k : Key) : Except EditError Key :=
  match m.require k with
  | .ok o =>
    match o.body with
    | .diagramObject d => .ok (d.shows.subject?.getD k)
    | _ => .ok k
  | .error e => .error e

namespace Edit

/-- Change the body of an object in a way that not all objects admit. -/
def revise (k : Key) (expected : Requirement) (change? : Body → Option Body) : Edit Unit := do
  let o ← check (·.require k)
  match change? o.body with
  | some body => update k fun o => { o with body }
  | none => throw (.wrongKind o.id expected)

/-- Name an object, or what it stands for. -/
def setName (k : Key) (name : String) : Edit Unit := do
  let owner ← check (·.describedBy k)
  revise owner .nameable (·.mapCaption? fun c => { c with name })

/-- Document an object, or what it stands for. -/
def setDocumentation (k : Key) (documentation : String) : Edit Unit := do
  let owner ← check (·.describedBy k)
  revise owner .documentable (·.mapCaption? fun c => { c with documentation })

/-- Give an object, or what it stands for, a property. -/
def setProperty (k : Key) (property value : String) : Edit Unit := do
  let owner ← check (·.describedBy k)
  revise owner .propertyHolder (·.mapProperties? (·.set property value))

/-- Replace the text of a note. -/
def setContent (k : Key) (content : String) : Edit Unit :=
  revise k .note (·.withContent? content)

/-- Give an object another identifier. -/
def setId (k : Key) (id : String) : Edit Unit := do
  if id = "" then throw .emptyId
  else
    let o ← check (·.require k)
    if o.id = id then
      return ()
    else if id ∈ (← get).usedIds then
      throw (.duplicateId id)
    else
      modify (Model.releaseId o.id)
      modify (Model.reserveId id)
      update k fun o => { o with id }
      bump

/-- Name the model. -/
def rename (name : String) : Edit Unit := modify fun m => { m with name }

/-- Document the model. -/
def setModelDocumentation (documentation : String) : Edit Unit :=
  modify fun m => { m with documentation }

/-- Give the model a property. -/
def setModelProperty (property value : String) : Edit Unit :=
  modify fun m => { m with properties := m.properties.set property value }

end Edit

end ModelLabels
