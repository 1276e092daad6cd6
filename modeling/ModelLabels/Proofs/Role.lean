import ModelLabels.Model.Basic
/-! # Roles

The role of an object is the part of it that no operation changes: its type, what it refers to, and
the view it is drawn on.  What may own an object and what it may refer to depends on roles only.

* `Object.role`, `Model.role?`: the role of an object.
* `Role.references`: the keys an object refers to.
* `Model.Holds`, `Model.Resolves`: the owner is one that may hold an object; what an object refers to
  is there and of the right kind.
* `Model.Fits`: both together.
-/

namespace ModelLabels
set_option autoImplicit false

/-- The part of an object that stays as long as the object does. -/
inductive Role where
  | folder (type rootType : FolderType)
  | concept (kind : ConceptKind)
  | view
  | diagramObject (shows : Shown) (view : Key)
  | connection (relationship : Option Key) (source target : Key) (view : Option Key)
  deriving Repr, DecidableEq

/-! ## Leaving out texts -/

def Shown.outline : Shown → Shown
  | element concept => element concept
  | note _ => note ""
  | group _ => group ⟨"", ""⟩
  | reference view => reference view

theorem Shown.subject?_outline (s : Shown) : s.outline.subject? = s.subject? := by
  cases s <;> rfl

theorem Shown.subject?_eq_some {s : Shown} {k : Key} :
    s.subject? = some k ↔ s = .element k ∨ s = .reference k := by
  cases s <;> simp [subject?]

theorem Shown.outline_outline (s : Shown) : s.outline.outline = s.outline := by
  cases s <;> rfl

def Body.outline : Body → Body
  | folder f => folder ⟨.named "", f.type, f.rootType⟩
  | concept c => concept ⟨.named "", c.kind⟩
  | view _ => view ⟨.named ""⟩
  | diagramObject d => diagramObject ⟨d.shows.outline, d.view⟩
  | connection c => connection { c with toCaption := ⟨"", ""⟩ }

def Object.role (o : Object) : Role :=
  match o.body with
  | .folder f => .folder f.type f.rootType
  | .concept c => .concept c.kind
  | .view _ => .view
  | .diagramObject d => .diagramObject d.shows.outline d.view
  | .connection c => .connection c.relationship c.source c.target o.owner

theorem Object.role_outline (id : String) (owner : Option Key) (b : Body) :
    (Object.mk id owner b.outline).role = (Object.mk id owner b).role := by
  cases b with
  | diagramObject d => simp only [Body.outline, role, Shown.outline_outline]
  | _ => rfl

/-- Objects with the same owner whose bodies differ in texts only have the same role. -/
theorem Object.role_congr {o p : Object} (ho : o.owner = p.owner)
    (hb : o.body.outline = p.body.outline) : o.role = p.role := by
  rw [← Object.role_outline o.id o.owner o.body, hb, ho]
  exact Object.role_outline o.id p.owner p.body

theorem Body.outline_of_mapCaption? {f : Caption → Caption} {b c : Body}
    (h : b.mapCaption? f = some c) : c.outline = b.outline := by
  cases b with
  | diagramObject d =>
    obtain ⟨s, v⟩ := d
    cases s with
    | group g => cases h; rfl
    | _ => cases h
  | _ => cases h; rfl

theorem Body.outline_of_mapProperties? {f : Properties → Properties} {b c : Body}
    (h : b.mapProperties? f = some c) : c.outline = b.outline := by
  cases b with
  | diagramObject d => cases h
  | connection c => cases h
  | _ => cases h; rfl

theorem Body.outline_of_withContent? {content : String} {b c : Body}
    (h : b.withContent? content = some c) : c.outline = b.outline := by
  cases b with
  | diagramObject d =>
    obtain ⟨s, v⟩ := d
    cases s with
    | note n => cases h; rfl
    | _ => cases h
  | _ => cases h

theorem Object.role_withConnected (o : Object) (isConnected : Bool) :
    { o with body := o.body.withConnected isConnected }.role = o.role := by
  obtain ⟨id, owner, body⟩ := o
  cases body <;> rfl

theorem Body.eq_of_connection? {b : Body} {c : Connection} (h : b.connection? = some c) :
    b = .connection c := by
  cases b <;> cases h
  rfl

/-! ## What roles say -/

namespace Role

/-- The objects that an object of the role refers to. -/
def references : Role → List Key
  | concept kind =>
    match kind.ends? with
    | some (source, target) => [source, target]
    | none => []
  | diagramObject shows _ => shows.subject?.toList
  | connection relationship source target _ => source :: target :: relationship.toList
  | folder _ _ | view => []

def drawnOn? : Role → Option Key
  | diagramObject _ v => some v
  | connection _ _ _ v => v
  | folder _ _ | concept _ | view => none

def isConnection : Role → Bool
  | connection _ _ _ _ => true
  | _ => false

end Role

/-- Whether a key is one that an object holds. -/
def Object.Mentions (o : Object) (k : Key) : Prop :=
  o.owner = some k ∨ o.drawnOn? = some k ∨ k ∈ o.role.references

theorem Object.drawnOn?_role (o : Object) : o.role.drawnOn? = o.drawnOn? := by
  obtain ⟨id, owner, body⟩ := o
  cases body <;> rfl

theorem Object.isConnection_role (o : Object) :
    o.role.isConnection = (o.body.connection?).isSome := by
  obtain ⟨id, owner, body⟩ := o
  cases body <;> rfl

/-- Whatever is not a connection has the same role wherever it is. -/
theorem Object.role_withOwner {o : Object} (h : o.role.isConnection = false) (owner : Option Key) :
    { o with owner }.role = o.role := by
  obtain ⟨id, _, body⟩ := o
  cases body with
  | connection c => cases h
  | _ => rfl

namespace Model

variable {m n : Model} {k p : Key} {r : Role}

def role? (m : Model) (k : Key) : Option Role := (m.get? k).map (·.role)

theorem role?_of_get? {o : Object} (h : m.get? k = some o) : m.role? k = some o.role := by
  rw [role?, h]
  rfl

theorem get?_of_role? (h : m.role? k = some r) : ∃ o, m.get? k = some o ∧ o.role = r :=
  Option.map_eq_some_iff.1 h

theorem contains_iff_get? : m.contains k = true ↔ ∃ o, m.get? k = some o := Option.isSome_iff_exists

theorem contains_of_get? {o : Object} (h : m.get? k = some o) : m.contains k = true :=
  contains_iff_get?.2 ⟨o, h⟩

theorem contains_of_role? (h : m.role? k = some r) : m.contains k = true :=
  have ⟨_, ho, _⟩ := get?_of_role? h
  contains_of_get? ho

theorem owner?_of_get? {o : Object} (h : m.get? k = some o) : m.owner? k = o.owner := by
  rw [owner?, h]
  rfl

theorem isConnection_iff_role? :
    m.isConnection k = true ↔ ∃ r, m.role? k = some r ∧ r.isConnection = true := by
  unfold isConnection connection? role?
  cases m.get? k with
  | none => simp
  | some o => simp [Object.isConnection_role]

/-- Whether an object may hold one of a given role. -/
def Holds (m : Model) (p : Key) : Role → Prop
  | .folder _ rootType => ∃ t, m.role? p = some (.folder t rootType)
  | .concept kind => ∃ t, m.role? p = some (.folder t (.forCategory kind.category))
  | .view => ∃ t, m.role? p = some (.folder t .views)
  | .diagramObject _ view =>
    (m.role? p = some .view ∧ view = p) ∨ ∃ s, m.role? p = some (.diagramObject s view)
  | .connection _ source target view =>
    view = some p ∧ ∀ k ∈ [source, target], ∃ q, m.role? k = some q ∧ q.drawnOn? = some p

/-- Whether what an object of a role refers to is there and of the right kind. -/
def Resolves (m : Model) : Role → Prop
  | .concept kind => ∀ k ∈ (Role.concept kind).references, ∃ c, m.role? k = some (.concept c)
  | .diagramObject (.element concept) _ => ∃ t, m.role? concept = some (.concept (.element t))
  | .diagramObject (.reference view) _ => m.role? view = some .view
  | .connection (some relationship) _ _ _ =>
    ∃ t a b, m.role? relationship = some (.concept (.relationship t a b))
  | _ => True

/-- Whether an object has an owner that may hold it and refers to what it may refer to.  Only
top-level folders have no owner. -/
def Fits (m : Model) (o : Object) : Prop :=
  m.Resolves o.role ∧
  match o.owner with
  | some p => m.Holds p o.role ∧ ∀ t r, o.role = .folder t r → t = .user
  | none => ∃ t, o.role = .folder t t ∧ t ≠ .user

theorem Holds.mono (h : m.Holds p r)
    (hp : ∀ k ∈ p :: r.references, ∀ q, m.role? k = some q → n.role? k = some q) : n.Holds p r := by
  have hown : ∀ q, m.role? p = some q → n.role? p = some q := hp p List.mem_cons_self
  cases r with
  | folder t rootType => exact h.imp fun t ht => hown _ ht
  | concept kind => exact h.imp fun t ht => hown _ ht
  | view => exact h.imp fun t ht => hown _ ht
  | diagramObject s v => exact h.imp (fun ⟨ht, hv⟩ => ⟨hown _ ht, hv⟩) fun ⟨s, hs⟩ => ⟨s, hown _ hs⟩
  | connection rel source target view =>
    obtain ⟨hv, hends⟩ := h
    refine ⟨hv, fun k hk => ?_⟩
    obtain ⟨q, hq, hd⟩ := hends k hk
    have hmem : k ∈ p :: (Role.connection rel source target view).references := by
      simp only [List.mem_cons, List.not_mem_nil, or_false] at hk
      simp only [Role.references, List.mem_cons]
      rcases hk with rfl | rfl <;> simp
    exact ⟨q, hp k hmem q hq, hd⟩

theorem Resolves.mono (h : m.Resolves r)
    (hr : ∀ k ∈ r.references, ∀ q, m.role? k = some q → n.role? k = some q) : n.Resolves r := by
  cases r with
  | concept kind => exact fun k hk => (h k hk).imp fun c hc => hr k hk _ hc
  | diagramObject s v =>
    cases s with
    | element c => exact h.imp fun t ht => hr c List.mem_cons_self _ ht
    | reference v => exact hr v List.mem_cons_self _ h
    | note _ => trivial
    | group _ => trivial
  | connection rel source target view =>
    cases rel with
    | none => trivial
    | some rel =>
      obtain ⟨t, a, b, h⟩ := h
      exact ⟨t, a, b, hr rel (by simp [Role.references]) _ h⟩
  | folder _ _ => trivial
  | view => trivial

/-- An object goes on to fit where its owner and all it refers to keep their roles. -/
theorem Fits.mono {o : Object} (h : m.Fits o)
    (hk : ∀ k, o.owner = some k ∨ k ∈ o.role.references →
      ∀ q, m.role? k = some q → n.role? k = some q) : n.Fits o := by
  obtain ⟨hr, ho⟩ := h
  refine ⟨hr.mono fun k hk' => hk k (.inr hk'), ?_⟩
  cases hown : o.owner with
  | none => simpa only [hown] using ho
  | some p =>
    simp only [hown] at ho ⊢
    refine ⟨ho.1.mono fun k hk' => ?_, ho.2⟩
    rcases List.mem_cons.1 hk' with rfl | hk'
    · exact hk k (.inl hown)
    · exact hk k (.inr hk')

theorem Fits.congr {o o' : Object} (h : m.Fits o) (ho : o'.owner = o.owner) (hr : o'.role = o.role) :
    m.Fits o' := by
  unfold Fits at h ⊢
  rw [hr, ho]
  exact h

end Model

end ModelLabels
