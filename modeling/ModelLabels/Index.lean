import Std.Data.HashMap
import ModelLabels.Model.Basic
/-! # The index of a model

Looking up identifiers, the relationships of a concept, and the views that show it needs a walk over
the whole model.  A snapshot keeps the results of one walk; an index keeps a snapshot for as long as
the instance number and the version of the model it is asked about stay the same.

* `Snapshot.of`: the snapshot of a model.
* `GraphIndex.read`: the snapshot of the model at hand, taken anew only when the stamp differs.
* `GraphIndex.keyOf?`, `objectOf?`, `relationshipsOf`, `referencingViews`: the look-ups.
-/

namespace ModelLabels
set_option autoImplicit false

/-- What tells the states of models apart. -/
structure Stamp where
  instanceNumber : Nat
  version : Nat
  deriving Repr, DecidableEq

/-- The stamp of a model's present state. -/
def Model.stamp (m : Model) : Stamp := ⟨m.instanceNumber, m.version⟩

/-- The results of one walk over a model. -/
structure Snapshot where
  stamp : Stamp
  /-- The objects by identifier. -/
  byId : Std.HashMap String Key
  /-- The relationships that touch a concept, in the order of the walk. -/
  relationships : Std.HashMap Key (List Key)
  /-- The views that show a concept, each once, in the order of the walk. -/
  views : Std.HashMap Key (List Key)

namespace Snapshot

/-- The snapshot of a walk that has met nothing yet. -/
def start (stamp : Stamp) : Snapshot := ⟨stamp, ∅, ∅, ∅⟩

/-- Enter a relationship for one of its ends. -/
def noteRelationship (s : Snapshot) (endpoint relationship : Key) : Snapshot :=
  let known := s.relationships.getD endpoint []
  { s with relationships := s.relationships.insert endpoint (known ++ [relationship]) }

/-- Enter a view for a concept that is shown on it, unless it is entered already. -/
def noteView (s : Snapshot) (concept view : Key) : Snapshot :=
  let known := s.views.getD concept []
  if view ∈ known then s else { s with views := s.views.insert concept (known ++ [view]) }

/-- Enter a relationship for both of its ends; one that ends where it starts is entered once. -/
def noteEnds (s : Snapshot) (relationship : Key) : Option (Key × Key) → Snapshot
  | some (source, target) =>
    if target = source then s.noteRelationship source relationship
    else (s.noteRelationship source relationship).noteRelationship target relationship
  | none => s

/-- Enter an object that the walk meets. -/
def note (s : Snapshot) (k : Key) (o : Object) : Snapshot :=
  let named := { s with byId := s.byId.insert o.id k }
  match o.body with
  | .concept c => named.noteEnds k c.kind.ends?
  | body =>
    match body.depicted?, o.drawnOn? with
    | some concept, some view => named.noteView concept view
    | _, _ => named

/-- Enter the object under a key, if there is one. -/
def visit (m : Model) (s : Snapshot) (k : Key) : Snapshot :=
  match m.get? k with
  | some o => s.note k o
  | none => s

/-- The snapshot of a model. -/
def of (m : Model) : Snapshot := m.walk.foldl (visit m) (start m.stamp)

end Snapshot

/-- The snapshot taken last, and how often one was taken. -/
structure GraphIndex where
  snapshot? : Option Snapshot
  rebuilds : Nat

namespace GraphIndex

/-- The index that has not been asked yet. -/
def empty : GraphIndex := ⟨none, 0⟩

/-- The version of the model that the last snapshot shows. -/
def version? (ix : GraphIndex) : Option Nat := ix.snapshot?.map (·.stamp.version)

/-- Forget the last snapshot. -/
def invalidate (ix : GraphIndex) : GraphIndex := { ix with snapshot? := none }

/-- The last snapshot, if it shows the present state of a model. -/
def current? (ix : GraphIndex) (m : Model) : Option Snapshot :=
  ix.snapshot?.filter (·.stamp = m.stamp)

/-- The snapshot of a model: the last one if it is of the same state, else a new one. -/
def read (m : Model) : StateM GraphIndex Snapshot := fun ix =>
  match ix.current? m with
  | some s => (s, ix)
  | none => (Snapshot.of m, ⟨some (Snapshot.of m), ix.rebuilds + 1⟩)

/-- The object with an identifier.  No object has the empty one. -/
def keyOf? (m : Model) (id : String) : StateM GraphIndex (Option Key) :=
  if id = "" then return none
  else return (← read m).byId[id]?

/-- The object with an identifier, itself. -/
def objectOf? (m : Model) (id : String) : StateM GraphIndex (Option Object) :=
  return (← keyOf? m id).bind m.get?

/-- The relationships whose source or target is a concept, in the order of the walk. -/
def relationshipsOf (m : Model) (concept : Key) : StateM GraphIndex (List Key) :=
  return (← read m).relationships.getD concept []

/-- The views that show a concept, in the order of the walk. -/
def referencingViews (m : Model) (concept : Key) : StateM GraphIndex (List Key) :=
  return (← read m).views.getD concept []

/-- The number of identifiers. -/
def size (m : Model) : StateM GraphIndex Nat :=
  return (← read m).byId.size

end GraphIndex

end ModelLabels
