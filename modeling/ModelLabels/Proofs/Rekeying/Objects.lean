import ModelLabels.Model.Operation
import ModelLabels.Navigation
import ModelLabels.Proofs.Role
/-! # Data under other keys

What objects, links and operations say under other keys: each key is replaced, and all else stays.

* `Object.mapKeys`, `Link.mapKeys`, `Operation.mapKeys`: the replacement.
* `Object.mentions`: the keys an object holds; `Object.mapKeys_congr`: no other keys matter.
-/

namespace ModelLabels
set_option autoImplicit false

variable {σ τ : Key → Key}

/-! ## Objects -/

def ConceptKind.mapKeys (σ : Key → Key) : ConceptKind → ConceptKind
  | element type => element type
  | relationship type source target => relationship type (σ source) (σ target)

def Concept.mapKeys (σ : Key → Key) (c : Concept) : Concept := { c with kind := c.kind.mapKeys σ }

def Shown.mapKeys (σ : Key → Key) : Shown → Shown
  | element concept => element (σ concept)
  | note content => note content
  | group caption => group caption
  | reference view => reference (σ view)

def DiagramObject.mapKeys (σ : Key → Key) (d : DiagramObject) : DiagramObject :=
  ⟨d.shows.mapKeys σ, σ d.view⟩

def Connection.mapKeys (σ : Key → Key) (c : Connection) : Connection :=
  { c with relationship := c.relationship.map σ, source := σ c.source, target := σ c.target }

def Body.mapKeys (σ : Key → Key) : Body → Body
  | folder f => folder f
  | concept c => concept (c.mapKeys σ)
  | view v => view v
  | diagramObject d => diagramObject (d.mapKeys σ)
  | connection c => connection (c.mapKeys σ)

def Object.mapKeys (σ : Key → Key) (o : Object) : Object :=
  ⟨o.id, o.owner.map σ, o.body.mapKeys σ⟩

def Link.mapKeys (σ : Key → Key) (l : Link) : Link := ⟨l.kind, σ l.tail, σ l.head⟩

def Target.mapKeys (σ : Key → Key) : Target → Target
  | object k => object (σ k)
  | model => model

/-! ## Operations and what they answer -/

def Operation.mapKeys (σ : Key → Key) : Operation → Operation
  | addFolder parent name => addFolder (σ parent) name
  | addElement type name => addElement type name
  | addElementIn folder type name => addElementIn (σ folder) type name
  | addRelationship type source target => addRelationship type (σ source) (σ target)
  | addRelationshipIn folder type source target =>
    addRelationshipIn (σ folder) type (σ source) (σ target)
  | addView name => addView name
  | addViewIn folder name => addViewIn (σ folder) name
  | addElementObject container concept => addElementObject (σ container) (σ concept)
  | addNote container content => addNote (σ container) content
  | addGroup container name => addGroup (σ container) name
  | addReference container view => addReference (σ container) (σ view)
  | addConnection source target => addConnection (σ source) (σ target)
  | addRelationshipConnection relationship source target =>
    addRelationshipConnection (σ relationship) (σ source) (σ target)
  | disconnect key => disconnect (σ key)
  | reconnect key => reconnect (σ key)
  | setName key name => setName (σ key) name
  | setDocumentation key documentation => setDocumentation (σ key) documentation
  | setProperty key property value => setProperty (σ key) property value
  | setContent key content => setContent (σ key) content
  | setId key id => setId (σ key) id
  | moveTo key parent => moveTo (σ key) (σ parent)
  | remove key => remove (σ key)
  | rename name => rename name
  | setModelDocumentation documentation => setModelDocumentation documentation
  | setModelProperty property value => setModelProperty property value

def Operation.Answer.mapKeys (σ : Key → Key) : Operation.Answer → Operation.Answer
  | done => done
  | added key => added (σ key)
  | removed count => removed count

/-- Only the error about an unknown key names a key; the others name objects by identifier. -/
def EditError.mapKeys (σ : Key → Key) : EditError → EditError
  | unknownKey key => unknownKey (σ key)
  | error => error

/-! ## Reading objects under other keys -/

namespace ConceptKind

@[simp] theorem category_mapKeys (k : ConceptKind) : (k.mapKeys σ).category = k.category := by
  cases k <;> rfl

@[simp] theorem label_mapKeys (k : ConceptKind) : (k.mapKeys σ).label = k.label := by
  cases k <;> rfl

@[simp] theorem relationshipType?_mapKeys (k : ConceptKind) :
    (k.mapKeys σ).relationshipType? = k.relationshipType? := by
  cases k <;> rfl

theorem ends?_mapKeys (k : ConceptKind) :
    (k.mapKeys σ).ends? = k.ends?.map fun e => (σ e.1, σ e.2) := by
  cases k <;> rfl

@[simp] theorem isRelationship_mapKeys (k : ConceptKind) :
    (k.mapKeys σ).isRelationship = k.isRelationship := by
  cases k <;> rfl

end ConceptKind

theorem Concept.isRelationship_mapKeys (c : Concept) :
    (c.mapKeys σ).kind.isRelationship = true ↔ c.kind.isRelationship = true :=
  Bool.eq_iff_iff.1 c.kind.isRelationship_mapKeys

namespace Shown

theorem concept?_mapKeys (s : Shown) : (s.mapKeys σ).concept? = s.concept?.map σ := by
  cases s <;> rfl

theorem subject?_mapKeys (s : Shown) : (s.mapKeys σ).subject? = s.subject?.map σ := by
  cases s <;> rfl

end Shown

namespace Body

@[simp] theorem folder?_mapKeys (b : Body) : (b.mapKeys σ).folder? = b.folder? := by
  cases b <;> rfl

@[simp] theorem view?_mapKeys (b : Body) : (b.mapKeys σ).view? = b.view? := by
  cases b <;> rfl

theorem concept?_mapKeys (b : Body) : (b.mapKeys σ).concept? = b.concept?.map (·.mapKeys σ) := by
  cases b <;> rfl

theorem diagramObject?_mapKeys (b : Body) :
    (b.mapKeys σ).diagramObject? = b.diagramObject?.map (·.mapKeys σ) := by
  cases b <;> rfl

theorem connection?_mapKeys (b : Body) :
    (b.mapKeys σ).connection? = b.connection?.map (·.mapKeys σ) := by
  cases b <;> rfl

theorem depicted?_mapKeys (b : Body) : (b.mapKeys σ).depicted? = b.depicted?.map σ := by
  cases b with
  | diagramObject d => exact d.shows.concept?_mapKeys
  | _ => rfl

theorem mapCaption?_mapKeys (b : Body) (change : Caption → Caption) :
    (b.mapKeys σ).mapCaption? change = (b.mapCaption? change).map (·.mapKeys σ) := by
  cases b with
  | diagramObject d =>
    obtain ⟨s, v⟩ := d
    cases s <;> rfl
  | _ => rfl

theorem mapProperties?_mapKeys (b : Body) (change : Properties → Properties) :
    (b.mapKeys σ).mapProperties? change = (b.mapProperties? change).map (·.mapKeys σ) := by
  cases b <;> rfl

theorem withContent?_mapKeys (b : Body) (content : String) :
    (b.mapKeys σ).withContent? content = (b.withContent? content).map (·.mapKeys σ) := by
  cases b with
  | diagramObject d =>
    obtain ⟨s, v⟩ := d
    cases s <;> rfl
  | _ => rfl

theorem withConnected_mapKeys (b : Body) (isConnected : Bool) :
    (b.mapKeys σ).withConnected isConnected = (b.withConnected isConnected).mapKeys σ := by
  cases b <;> rfl

end Body

namespace Object

theorem drawnOn?_mapKeys (o : Object) : (o.mapKeys σ).drawnOn? = o.drawnOn?.map σ := by
  obtain ⟨id, owner, body⟩ := o
  cases body <;> rfl

@[simp] theorem isTopLevel_mapKeys (o : Object) : (o.mapKeys σ).isTopLevel = o.isTopLevel := by
  obtain ⟨id, owner, body⟩ := o
  cases body <;> cases owner <;> rfl

end Object

theorem ConceptKind.mapKeys_congr {k : ConceptKind}
    (h : ∀ x, x ∈ (Role.concept k).references → τ x = σ x) : k.mapKeys τ = k.mapKeys σ := by
  cases k with
  | element type => rfl
  | relationship type source target =>
    rw [mapKeys, h source (by simp [Role.references, ends?]),
      h target (by simp [Role.references, ends?]), mapKeys]

theorem Shown.mapKeys_congr {s : Shown} (h : ∀ x, s.subject? = some x → τ x = σ x) :
    s.mapKeys τ = s.mapKeys σ := by
  cases s with
  | element concept => rw [mapKeys, h concept rfl, mapKeys]
  | reference view => rw [mapKeys, h view rfl, mapKeys]
  | note content => rfl
  | group caption => rfl

namespace Object

theorem mapKeys_congr {o : Object} (h : ∀ k, o.Mentions k → τ k = σ k) :
    o.mapKeys τ = o.mapKeys σ := by
  obtain ⟨id, owner, body⟩ := o
  have howner : owner.map τ = owner.map σ := Option.map_congr fun k hk => h k (.inl hk)
  have hbody : body.mapKeys τ = body.mapKeys σ := by
    cases body with
    | folder f => rfl
    | view v => rfl
    | concept c =>
      rw [Body.mapKeys, Concept.mapKeys, ConceptKind.mapKeys_congr fun k hk => h k (.inr (.inr hk))]
      rfl
    | diagramObject d =>
      have hshows : d.shows.mapKeys τ = d.shows.mapKeys σ := by
        refine Shown.mapKeys_congr fun k hk => h k (.inr (.inr ?_))
        simpa [role, Role.references, Shown.subject?_outline] using hk
      rw [Body.mapKeys, DiagramObject.mapKeys, hshows, h d.view (.inr (.inl rfl))]
      rfl
    | connection c =>
      have hends : ∀ k ∈ c.source :: c.target :: c.relationship.toList, τ k = σ k :=
        fun k hk => h k (.inr (.inr hk))
      have hrelationship : c.relationship.map τ = c.relationship.map σ :=
        Option.map_congr fun k hk => hends k (by simp [hk])
      rw [Body.mapKeys, Connection.mapKeys, hrelationship, hends c.source (by simp),
        hends c.target (by simp)]
      rfl
  rw [mapKeys, howner, hbody, mapKeys]

end Object

/-! ## The same keys, and one change of keys after another -/

theorem Object.mapKeys_self (o : Object) : o.mapKeys (fun k => k) = o := by
  obtain ⟨i, owner, body⟩ := o
  cases body with
  | concept c =>
    obtain ⟨d, kind⟩ := c
    cases kind <;> simp [mapKeys, Body.mapKeys, Concept.mapKeys, ConceptKind.mapKeys]
  | diagramObject d =>
    obtain ⟨shows, view⟩ := d
    cases shows <;> simp [mapKeys, Body.mapKeys, DiagramObject.mapKeys, Shown.mapKeys]
  | connection c => simp [mapKeys, Body.mapKeys, Connection.mapKeys]
  | _ => simp [mapKeys, Body.mapKeys]

theorem Object.mapKeys_mapKeys (o : Object) :
    (o.mapKeys σ).mapKeys τ = o.mapKeys (τ ∘ σ) := by
  obtain ⟨i, owner, body⟩ := o
  cases body with
  | concept c =>
    obtain ⟨d, kind⟩ := c
    cases kind <;> simp [mapKeys, Body.mapKeys, Concept.mapKeys, ConceptKind.mapKeys]
  | diagramObject d =>
    obtain ⟨shows, view⟩ := d
    cases shows <;> simp [mapKeys, Body.mapKeys, DiagramObject.mapKeys, Shown.mapKeys]
  | connection c => simp [mapKeys, Body.mapKeys, Connection.mapKeys]
  | _ => simp [mapKeys, Body.mapKeys]

end ModelLabels
