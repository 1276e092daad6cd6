import ModelLabels.Model.Creation
/-! # Changes

The changes that operations make once nothing stands against them, each with all parts of the new state
in one place.

* `Body.end?`, `Object.links`: the links that an object calls for.
* `Model.inserted`, `detached`, `reattached`, `renamed`, `moved`, `cleared`: the changes.
* `create_linked`, `get?_update`, `cleared_frame`, `cleared_counters`: what the steps of the changes
  come to.
-/

namespace ModelLabels
set_option autoImplicit false

/-! ## The links of an object -/

/-- The object at the end of the link of a kind that an object calls for, if it calls for one.  A
connection that is detached calls for no links to its ends. -/
def Body.end? : LinkKind → Body → Option Key
  | .source, .concept c => c.kind.ends?.map (·.1)
  | .target, .concept c => c.kind.ends?.map (·.2)
  | .source, .connection c => if c.isConnected then some c.source else none
  | .target, .connection c => if c.isConnected then some c.target else none
  | .shows, .connection c => c.relationship
  | .shows, .diagramObject d => d.shows.subject?
  | _, _ => none

/-- The links to what an object refers to, in the order in which they are made. -/
def Body.links (k : Key) (b : Body) : List Link :=
  [.source, .target, .shows].flatMap fun kind => (b.end? kind).toList.map (⟨kind, k, ·⟩)

theorem Body.links_diagramObject (k : Key) (d : DiagramObject) :
    (Body.diagramObject d).links k = d.shows.subject?.toList.map (⟨.shows, k, ·⟩) := by
  simp [Body.links, Body.end?]

/-- The links that an object calls for: the one from its owner, and those to what it refers to. -/
def Object.links (k : Key) (o : Object) : List Link :=
  o.owner.toList.map (⟨.contains, ·, k⟩) ++ o.body.links k

/-! ## Changes -/

namespace Model

def nextKey (m : Model) : Key := m.objects.nextKey (m.lastSerial + 1)

/-- The model with one more object, linked to all it refers to. -/
def inserted (m : Model) (owner : Option Key) (body : Body) : Model :=
  let o : Object := ⟨m.freshId.1, owner, body⟩
  { m with
    objects := m.objects.insert (m.lastSerial + 1) o
    links := m.links ++ o.links m.nextKey
    usedIds := o.id :: m.usedIds
    lastId := m.freshId.2.lastId
    lastSerial := m.lastSerial + 1 + (o.links m.nextKey).length }

def added (m : Model) (owner : Key) (body : Body) : Model := (m.inserted (some owner) body).bump

def detached (m : Model) (k : Key) : Model :=
  ((m.unlinkFrom .source k).unlinkFrom .target k).update k fun o =>
    { o with body := o.body.withConnected false }

/-- The model with a connection attached to its ends. -/
def reattached (m : Model) (k : Key) (c : Connection) : Model :=
  ((m.link .source k c.source).link .target k c.target).update k fun o =>
    { o with body := o.body.withConnected true }

def renamed (m : Model) (k : Key) (old id : String) : Model :=
  (((m.releaseId old).reserveId id).update k fun o => { o with id }).bump

def moved (m : Model) (k parent : Key) : Model :=
  (((m.unlinkTo .contains k).update k fun o => { o with owner := some parent }).link
    .contains parent k).bump

/-- The model without some objects, which go one after the other. -/
def cleared (m : Model) (ks : List Key) : Model := (ks.foldl erase m).bump

/-! ## What creating and linking come to -/

def linked (m : Model) (ls : List Link) : Model :=
  { m with links := m.links ++ ls, lastSerial := m.lastSerial + ls.length }

theorem linked_nil (m : Model) : m.linked [] = m := by simp [linked]

theorem link_eq (m : Model) (kind : LinkKind) (tail head : Key) :
    m.link kind tail head = m.linked [⟨kind, tail, head⟩] := rfl

theorem linked_linked (m : Model) (ls rs : List Link) :
    (m.linked ls).linked rs = m.linked (ls ++ rs) := by
  simp [linked, Nat.add_assoc]

theorem create_fst (m : Model) (owner : Option Key) (body : Body) :
    (m.create owner body).1 = m.nextKey := by
  cases owner <;> rfl

/-- An object that is created and then linked to what it refers to is inserted. -/
theorem create_linked (m : Model) (owner : Option Key) (body : Body) :
    (m.create owner body).2.linked (body.links m.nextKey) = m.inserted owner body := by
  cases owner with
  | none => rfl
  | some p =>
    simp only [create, insert, link_eq, linked_linked, inserted, Object.links, Option.toList_some,
      List.map_cons, List.map_nil]
    rfl

theorem create_eq {m : Model} {owner : Option Key} {body : Body} (h : body.links m.nextKey = []) :
    (m.create owner body).2 = m.inserted owner body := by
  rw [← create_linked, h, linked_nil]

/-! ## Objects after a change -/

theorem get?_update (m : Model) (k l : Key) (f : Object → Object) :
    (m.update k f).get? l = if l = k then (m.get? l).map f else m.get? l :=
  Store.get?_update m.objects k l f

theorem get?_update_of_get? {m : Model} {k : Key} {o : Object} (h : m.get? k = some o)
    (f : Object → Object) (l : Key) :
    (m.update k f).get? l = if l = k then some (f o) else m.get? l := by
  rw [get?_update]
  by_cases hl : l = k
  · rw [if_pos hl, if_pos hl, hl, h]
    rfl
  · rw [if_neg hl, if_neg hl]

theorem get?_of_objects_eq {m n : Model} {k : Key} {o : Object} {f : Object → Object}
    (h : m.get? k = some o) (hobjects : n.objects = m.objects.update k f) (l : Key) :
    n.get? l = if l = k then some (f o) else m.get? l := by
  rw [get?, hobjects]
  exact get?_update_of_get? h f l

/-- What no removal of an object changes, no removal of several changes. -/
theorem foldl_erase_eq {α : Type} {f : Model → α} (hf : ∀ m k, f (erase m k) = f m)
    (ks : List Key) (m : Model) : f (ks.foldl erase m) = f m := by
  induction ks generalizing m with
  | nil => rfl
  | cons k ks ih => rw [List.foldl_cons, ih, hf]

theorem erase_frame (m : Model) (k : Key) :
    (m.erase k).instanceNumber = m.instanceNumber ∧ (m.erase k).id = m.id ∧
      (m.erase k).topLevel = m.topLevel ∧ (m.erase k).version = m.version := by
  unfold erase
  cases m.get? k <;> exact ⟨rfl, rfl, rfl, rfl⟩

theorem cleared_frame (m : Model) (ks : List Key) :
    (m.cleared ks).instanceNumber = m.instanceNumber ∧ (m.cleared ks).id = m.id ∧
      (m.cleared ks).topLevel = m.topLevel ∧ (m.cleared ks).version = m.version + 1 :=
  ⟨foldl_erase_eq (fun m k => (erase_frame m k).1) ks m,
    foldl_erase_eq (fun m k => (erase_frame m k).2.1) ks m,
    foldl_erase_eq (fun m k => (erase_frame m k).2.2.1) ks m,
    congrArg (· + 1) (foldl_erase_eq (fun m k => (erase_frame m k).2.2.2) ks m)⟩

theorem erase_counters (m : Model) (k : Key) :
    (m.erase k).lastId = m.lastId ∧ (m.erase k).lastSerial = m.lastSerial := by
  unfold erase
  cases m.get? k <;> exact ⟨rfl, rfl⟩

theorem cleared_counters (m : Model) (ks : List Key) :
    (m.cleared ks).lastId = m.lastId ∧ (m.cleared ks).lastSerial = m.lastSerial :=
  ⟨foldl_erase_eq (fun m k => (erase_counters m k).1) ks m,
    foldl_erase_eq (fun m k => (erase_counters m k).2) ks m⟩

end Model

end ModelLabels
