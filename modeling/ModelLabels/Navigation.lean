import ModelLabels.Index
import ModelLabels.Template.Route
/-! # Navigation

A route leads from the model or one of its objects to at most one target.  The keywords for what is
drawn follow the diagram; those for concepts follow the concept an object stands for, and so do not
depend on whether a connection is attached to its ends.

* `navigate`: the target of a route.
* `Model.underlyingConcept?`: the concept an object stands for.
-/

namespace ModelLabels
set_option autoImplicit false

/-- What a route starts from and leads to. -/
inductive Target where
  | object (key : Key)
  /-- The model itself. -/
  | model
  deriving Repr, DecidableEq

namespace Model

/-- The concept an object stands for: a concept for itself, an element object for its element, a
connection for its relationship. -/
def underlyingConcept? (m : Model) (k : Key) : Option Key :=
  match m.get? k with
  | some o =>
    match o.body with
    | .concept _ => some k
    | body => body.depicted?
  | none => none

/-- The ends of a relationship. -/
def ends? (m : Model) (relationship : Key) : Option (Key × Key) :=
  (m.concept? relationship).bind (·.kind.ends?)

/-- What stands at an end of a plain connection: the element that is shown there, or else the
component itself. -/
def componentConcept? (m : Model) (component : Key) : Option Key :=
  match m.get? component with
  | some o =>
    match o.body with
    | .diagramObject d => some (d.shows.concept?.getD component)
    | _ => some component
  | none => none

/-- An end of a relationship, or of a connection. -/
def endpoint? (m : Model) (k : Key) (e : Endpoint) : Option Key :=
  match m.get? k with
  | some o =>
    match o.body with
    | .concept c => c.kind.ends?.map e.pick
    | .connection c =>
      match c.relationship with
      | some r => (m.ends? r).map e.pick
      | none => m.componentConcept? (e.pick (c.source, c.target))
    | _ => none
  | none => none

/-- The container of a diagram object. -/
def container? (m : Model) (k : Key) : Option Key :=
  if (m.diagramObject? k).isSome then m.owner? k else none

/-- The folder that holds a concept. -/
def conceptFolder? (m : Model) (k : Key) : Option Key :=
  if (m.concept? k).isSome then m.owner? k else none

/-- The folder that holds a view. -/
def viewFolder? (m : Model) (k : Key) : Option Key :=
  if (m.view? k).isSome then m.owner? k else none

end Model

/-- The view that an object belongs to.  A concept belongs to no view; the first one that shows it is
taken instead. -/
def enclosingView? (m : Model) (k : Key) : StateM GraphIndex (Option Key) :=
  match m.get? k with
  | some o =>
    match o.body with
    | .view _ => return some k
    | .concept _ => return (← GraphIndex.referencingViews m k).head?
    | _ => return o.drawnOn?
  | none => return none

/-- The folder of the view that an object belongs to.  For a concept that no view shows it is the
top-level folder of the views. -/
def enclosingFolder? (m : Model) (k : Key) : StateM GraphIndex (Option Key) := do
  match ← enclosingView? m k with
  | some view => return m.viewFolder? view
  | none => return if (m.concept? k).isSome then m.topLevelFolder? .views else none

/-- An end of the first relationship of a type that touches the concept an object stands for. -/
def relatedEnd? (m : Model) (k : Key) (r : Relation) (e : Endpoint) :
    StateM GraphIndex (Option Key) :=
  match r, m.underlyingConcept? k with
  | .known type, some concept => do
    let relationships ← GraphIndex.relationshipsOf m concept
    let kinds := relationships.filterMap fun r => (m.concept? r).map (·.kind)
    return ((kinds.find? (·.relationshipType? = some type)).bind (·.ends?)).map e.pick
  | _, _ => return none

/-- The object that a keyword leads to. -/
def stepAlong? (m : Model) (k : Key) : Keyword → StateM GraphIndex (Option Key)
  | .source => return m.endpoint? k .source
  | .target => return m.endpoint? k .target
  | .parent => return m.container? k
  | .modelFolder => return (m.underlyingConcept? k).bind m.conceptFolder?
  | .viewFolder => enclosingFolder? m k
  | .view => enclosingView? m k
  | .model => return none

/-- The target that a route leads to from a root. -/
def navigate (m : Model) (root : Target) (route : Route) : StateM GraphIndex (Option Target) :=
  match route, root with
  | .current, _ => return some root
  | .along .model, _ => return some .model
  | _, .model => return none
  | .along keyword, .object k => return (← stepAlong? m k keyword).map .object
  | .related r e, .object k => return (← relatedEnd? m k r e).map .object

end ModelLabels
