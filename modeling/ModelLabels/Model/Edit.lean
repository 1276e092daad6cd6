import ModelLabels.Model.Basic
import ModelLabels.Model.Error
import ModelLabels.Text.Hexadecimal
/-! # Elementary changes

The steps that changes to a model consist of, and the checks they begin with.

* `Model.freshId`: an identifier that is not in use.
* `Model.create`: a new object with a fresh identifier and serial number, linked to its owner.
* `Model.require`, `Model.requireBody`: the object under a key, or the reason it will not do.
* `Edit`: changes that may be refused.
-/

namespace ModelLabels
set_option autoImplicit false

/-! ## Identifiers -/

/-- The `n`-th identifier that is made up. -/
def idText (n : Nat) : String := String.ofList (['i', 'd', '-'] ++ Hexadecimal.padded 8 n)

theorem idText_injective {n k : Nat} (h : idText n = idText k) : n = k := by
  have := List.append_cancel_left (String.ofList_injective h)
  exact Hexadecimal.padded_injective this

/-- The number of the first identifier after the `last`-th that is not in use, of as many as there
are tries; the one behind them if all of them are in use. -/
def freeIdNumber (used : List String) : Nat → Nat → Nat
  | 0, last => last + 1
  | tries + 1, last =>
    if idText (last + 1) ∈ used then freeIdNumber used tries (last + 1) else last + 1

namespace Model

/-- An identifier that is not in use.  Of as many identifiers as are in use and one more, one is
free. -/
def freshId (m : Model) : String × Model :=
  let n := freeIdNumber m.usedIds m.usedIds.length m.lastId
  (idText n, { m with lastId := n })

/-- Take an identifier into use. -/
def reserveId (id : String) (m : Model) : Model := { m with usedIds := id :: m.usedIds }

/-- Set an identifier free. -/
def releaseId (id : String) (m : Model) : Model := { m with usedIds := m.usedIds.filter (· ≠ id) }

/-! ## Objects and links -/

/-- Count a change of structure. -/
def bump (m : Model) : Model := { m with version := m.version + 1 }

/-- Add a link, younger than all others. -/
def link (kind : LinkKind) (tail head : Key) (m : Model) : Model :=
  { m with links := m.links ++ [⟨kind, tail, head⟩], lastSerial := m.lastSerial + 1 }

/-- Drop the links of a kind that leave an object. -/
def unlinkFrom (kind : LinkKind) (tail : Key) (m : Model) : Model :=
  { m with links := m.links.filter fun l => ¬ (l.kind = kind ∧ l.tail = tail) }

/-- Drop the links of a kind that reach an object. -/
def unlinkTo (kind : LinkKind) (head : Key) (m : Model) : Model :=
  { m with links := m.links.filter fun l => ¬ (l.kind = kind ∧ l.head = head) }

/-- Change the object under a key. -/
def update (k : Key) (change : Object → Object) (m : Model) : Model :=
  { m with objects := m.objects.update k change }

/-- Add an object, and the link from its owner. -/
def insert (o : Object) (m : Model) : Key × Model :=
  let serial := m.lastSerial + 1
  let key := m.objects.nextKey serial
  let added := { m.reserveId o.id with objects := m.objects.insert serial o, lastSerial := serial }
  match o.owner with
  | some owner => (key, added.link .contains owner key)
  | none => (key, added)

/-- Add an object with a fresh identifier. -/
def create (owner : Option Key) (body : Body) (m : Model) : Key × Model :=
  let (id, named) := m.freshId
  named.insert ⟨id, owner, body⟩

/-- Remove an object with the links that touch it, and set its identifier free. -/
def erase (m : Model) (k : Key) : Model :=
  match m.get? k with
  | some o =>
    { m.releaseId o.id with
      objects := m.objects.erase k
      links := m.links.filter fun l => l.tail ≠ k ∧ l.head ≠ k }
  | none => m

/-! ## Checks -/

/-- The object under a key. -/
def require (m : Model) (k : Key) : Except EditError Object :=
  match m.get? k with
  | some o => .ok o
  | none => .error (.unknownKey k)

/-- The object under a key with a part that only the expected objects have. -/
def requirePart {α : Type} (m : Model) (k : Key) (expected : Requirement)
    (part? : Object → Option α) : Except EditError (Object × α) :=
  match m.get? k with
  | some o =>
    match part? o with
    | some a => .ok (o, a)
    | none => .error (.wrongKind o.id expected)
  | none => .error (.unknownKey k)

/-- The folder under a key. -/
def requireFolder (m : Model) (k : Key) : Except EditError (Object × Folder) :=
  m.requirePart k .folder (·.body.folder?)

/-- The concept under a key. -/
def requireConcept (m : Model) (k : Key) : Except EditError (Object × Concept) :=
  m.requirePart k .concept (·.body.concept?)

/-- The view under a key. -/
def requireView (m : Model) (k : Key) : Except EditError (Object × View) :=
  m.requirePart k .view (·.body.view?)

/-- The connection under a key. -/
def requireConnection (m : Model) (k : Key) : Except EditError (Object × Connection) :=
  m.requirePart k .connection (·.body.connection?)

/-- The view that a component is drawn on. -/
def requireComponent (m : Model) (k : Key) : Except EditError (Object × Key) :=
  m.requirePart k .component (·.drawnOn?)

/-- The view that something put into a container is drawn on: a view contains what is drawn on
itself, and a diagram object what is drawn on its own view. -/
def requireContainer (m : Model) (k : Key) : Except EditError (Object × Key) :=
  m.requirePart k .container fun o =>
    match o.body with
    | .view _ => some k
    | .diagramObject d => some d.view
    | _ => none

/-- A folder that can hold concepts of a category. -/
def requireAccepting (m : Model) (k : Key) (c : Category) (what : String) :
    Except EditError Unit :=
  match m.requireFolder k with
  | .ok (o, f) => if f.accepts c then .ok () else .error (.folderMismatch o.id what)
  | .error e => .error e

end Model

/-! ## Changes that may be refused -/

/-- A change to a model that answers a value, or the reason for which it is refused. -/
abbrev Edit := EStateM EditError Model

namespace Edit

/-- A check looks at the model and does not change it. -/
def check {α : Type} (f : Model → Except EditError α) : Edit α := fun m =>
  match f m with
  | .ok a => .ok a m
  | .error e => .error e m

/-- Add an object with a fresh identifier. -/
def create (owner : Option Key) (body : Body) : Edit Key := modifyGet (Model.create owner body)

/-- Add a link. -/
def link (kind : LinkKind) (tail head : Key) : Edit Unit := modify (Model.link kind tail head)

/-- Count a change of structure. -/
def bump : Edit Unit := modify Model.bump

/-- Change the object under a key, which must exist. -/
def update (k : Key) (change : Object → Object) : Edit Unit := do
  let _ ← check (·.require k)
  modify (Model.update k change)

/-! ## What the steps of a change do -/

variable {α β : Type}

theorem bind_apply (x : Edit α) (f : α → Edit β) (m : Model) :
    (x >>= f) m = match x m with
      | .ok a n => f a n
      | .error e n => .error e n := by
  simp only [bind, EStateM.bind]
  cases x m <;> rfl

theorem pure_apply (a : α) (m : Model) : (pure a : Edit α) m = .ok a m := rfl

theorem throw_apply (e : EditError) (m : Model) : (throw e : Edit α) m = .error e m := rfl

theorem get_apply (m : Model) : (get : Edit Model) m = .ok m m := rfl

theorem modify_apply (f : Model → Model) (m : Model) : (modify f : Edit Unit) m = .ok () (f m) := rfl

theorem check_apply {f : Model → Except EditError α} (m : Model) :
    check f m = match f m with
      | .ok a => .ok a m
      | .error e => .error e m := rfl

theorem create_apply (owner : Option Key) (body : Body) (m : Model) :
    create owner body m = .ok (m.create owner body).1 (m.create owner body).2 := rfl

theorem link_apply (kind : LinkKind) (tail head : Key) (m : Model) :
    link kind tail head m = .ok () (m.link kind tail head) := rfl

theorem bump_apply (m : Model) : bump m = .ok () m.bump := rfl

/-- An object that exists can be changed. -/
theorem update_apply {k : Key} {m : Model} {o : Object} (h : m.get? k = some o)
    (change : Object → Object) : update k change m = .ok () (m.update k change) := by
  simp only [update, bind_apply, check_apply, Model.require, h, modify_apply]

end Edit

end ModelLabels
