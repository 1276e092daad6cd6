import ModelLabels.Proofs.Integrity.Preservation
/-! # References resolve

In every reachable model each key that an object holds is that of an object of the right kind, and the
links from an object to what it refers to are those its fields call for.

* `Model.Resolved`: what the keys of an object must be the keys of.
* `Model.NoDangling`: the property; `Reachable.noDangling`.
-/

namespace ModelLabels.Model
set_option autoImplicit false

variable {m : Model} {k : Key} {o : Object}

/-- Whether a key is that of a component of a view, a diagram object or a connection. -/
def IsComponent (m : Model) (k : Key) : Prop :=
  (m.diagramObject? k).isSome = true ∨ (m.connection? k).isSome = true

/-- The keys an object holds are those of objects that are there and of the right kind.  The ends of
a connection are asked for whether it is attached to them or not. -/
def Resolved (m : Model) (o : Object) : Prop :=
  match o.body with
  | .folder _ => ∀ p, o.owner = some p → (m.folder? p).isSome = true
  | .concept c =>
    (∃ p, o.owner = some p ∧ (m.folder? p).isSome = true) ∧
    ∀ s t, c.kind.ends? = some (s, t) → (m.concept? s).isSome = true ∧ (m.concept? t).isSome = true
  | .view _ => ∃ p, o.owner = some p ∧ (m.folder? p).isSome = true
  | .diagramObject d =>
    (∃ p, o.owner = some p ∧ ((m.view? p).isSome = true ∨ (m.diagramObject? p).isSome = true)) ∧
    (m.view? d.view).isSome = true ∧
    (∀ e, d.shows = .element e → ∃ c, m.concept? e = some c ∧ c.kind.isRelationship = false) ∧
    ∀ v, d.shows = .reference v → (m.view? v).isSome = true
  | .connection c =>
    (∃ v, o.owner = some v ∧ (m.view? v).isSome = true) ∧
    m.IsComponent c.source ∧ m.IsComponent c.target ∧
    ∀ r, c.relationship = some r → ∃ e, m.concept? r = some e ∧ e.kind.isRelationship = true

/-- No key of an object is left behind by what it was the key of, and fields and links agree. -/
structure NoDangling (m : Model) : Prop where
  resolved : ∀ k o, m.get? k = some o → m.Resolved o
  linked : ∀ k o, m.get? k = some o → ∀ kind, kind ≠ .contains →
    m.outgoing kind k = (o.body.end? kind).toList

/-! ## Objects by kind -/

theorem folder?_of_get? (ho : m.get? k = some o) : m.folder? k = o.body.folder? := by
  rw [folder?, ho, Option.bind_some]

theorem concept?_of_get? (ho : m.get? k = some o) : m.concept? k = o.body.concept? := by
  rw [concept?, ho, Option.bind_some]

theorem view?_of_get? (ho : m.get? k = some o) : m.view? k = o.body.view? := by
  rw [view?, ho, Option.bind_some]

theorem diagramObject?_of_get? (ho : m.get? k = some o) :
    m.diagramObject? k = o.body.diagramObject? := by
  rw [diagramObject?, ho, Option.bind_some]

theorem connection?_of_get? (ho : m.get? k = some o) : m.connection? k = o.body.connection? := by
  rw [connection?, ho, Option.bind_some]

theorem get?_of_folder? {f : Folder} (h : m.folder? k = some f) :
    ∃ id owner, m.get? k = some ⟨id, owner, .folder f⟩ := by
  obtain ⟨⟨id, owner, body⟩, ho, hbody⟩ := Option.bind_eq_some_iff.1 h
  cases body <;> cases hbody
  exact ⟨id, owner, ho⟩

theorem get?_of_concept? {c : Concept} (h : m.concept? k = some c) :
    ∃ id owner, m.get? k = some ⟨id, owner, .concept c⟩ := by
  obtain ⟨⟨id, owner, body⟩, ho, hbody⟩ := Option.bind_eq_some_iff.1 h
  cases body <;> cases hbody
  exact ⟨id, owner, ho⟩

theorem get?_of_view? {v : View} (h : m.view? k = some v) :
    ∃ id owner, m.get? k = some ⟨id, owner, .view v⟩ := by
  obtain ⟨⟨id, owner, body⟩, ho, hbody⟩ := Option.bind_eq_some_iff.1 h
  cases body <;> cases hbody
  exact ⟨id, owner, ho⟩

theorem get?_of_diagramObject? {d : DiagramObject} (h : m.diagramObject? k = some d) :
    ∃ id owner, m.get? k = some ⟨id, owner, .diagramObject d⟩ := by
  obtain ⟨⟨id, owner, body⟩, ho, hbody⟩ := Option.bind_eq_some_iff.1 h
  cases body <;> cases hbody
  exact ⟨id, owner, ho⟩

theorem get?_of_connection? {c : Connection} (h : m.connection? k = some c) :
    ∃ id owner, m.get? k = some ⟨id, owner, .connection c⟩ := by
  obtain ⟨⟨id, owner, body⟩, ho, hbody⟩ := Option.bind_eq_some_iff.1 h
  cases body <;> cases hbody
  exact ⟨id, owner, ho⟩

theorem role?_of_concept? {concept : Concept} (h : m.concept? k = some concept) :
    m.role? k = some (.concept concept.kind) := by
  obtain ⟨id, owner, ho⟩ := get?_of_concept? h
  exact role?_of_get? ho

theorem role?_of_folder? {f : Folder} (h : m.folder? k = some f) :
    m.role? k = some (.folder f.type f.rootType) := by
  obtain ⟨id, owner, ho⟩ := get?_of_folder? h
  exact role?_of_get? ho

theorem role?_of_diagramObject? {d : DiagramObject} (h : m.diagramObject? k = some d) :
    m.role? k = some (.diagramObject d.shows.outline d.view) := by
  obtain ⟨id, owner, ho⟩ := get?_of_diagramObject? h
  exact role?_of_get? ho

theorem role?_of_connection? {c : Connection} (h : m.connection? k = some c) :
    m.role? k = some (.connection c.relationship c.source c.target (m.owner? k)) := by
  obtain ⟨id, owner, ho⟩ := get?_of_connection? h
  rw [owner?_of_get? ho]
  exact role?_of_get? ho

theorem exists_folder_of_role? {t r : FolderType} (h : m.role? k = some (.folder t r)) :
    ∃ f, m.folder? k = some f ∧ f.type = t ∧ f.rootType = r := by
  obtain ⟨⟨id, owner, body⟩, ho, hr⟩ := get?_of_role? h
  cases body <;> cases hr
  exact ⟨_, folder?_of_get? ho, rfl, rfl⟩

theorem folder?_of_role? {t r : FolderType} (h : m.role? k = some (.folder t r)) :
    (m.folder? k).isSome = true := by
  obtain ⟨f, hf, -⟩ := exists_folder_of_role? h
  rw [hf]
  rfl

theorem exists_diagramObject_of_role? {s : Shown} {v : Key}
    (h : m.role? k = some (.diagramObject s v)) : ∃ d, m.diagramObject? k = some d ∧ d.view = v := by
  obtain ⟨⟨id, owner, body⟩, ho, hr⟩ := get?_of_role? h
  cases body <;> cases hr
  exact ⟨_, diagramObject?_of_get? ho, rfl⟩

theorem view?_of_role? (h : m.role? k = some .view) : (m.view? k).isSome = true := by
  obtain ⟨⟨id, owner, body⟩, ho, hr⟩ := get?_of_role? h
  cases body <;> cases hr
  simp [view?, ho, Body.view?]

theorem view?_isSome_iff : (m.view? k).isSome = true ↔ m.role? k = some .view := by
  refine ⟨fun hv => ?_, view?_of_role?⟩
  obtain ⟨v, hv⟩ := Option.isSome_iff_exists.1 hv
  obtain ⟨id, owner, ho⟩ := get?_of_view? hv
  exact role?_of_get? ho

theorem concept?_of_role? {kind : ConceptKind} (h : m.role? k = some (.concept kind)) :
    ∃ c, m.concept? k = some c ∧ c.kind = kind := by
  obtain ⟨⟨id, owner, body⟩, ho, hr⟩ := get?_of_role? h
  cases body <;> cases hr
  exact ⟨_, by simp [concept?, ho, Body.concept?], rfl⟩

theorem diagramObject?_of_role? {s : Shown} {v : Key} (h : m.role? k = some (.diagramObject s v)) :
    (m.diagramObject? k).isSome = true := by
  obtain ⟨d, hd, -⟩ := exists_diagramObject_of_role? h
  rw [hd]
  rfl

theorem isComponent_of_role? {r : Role} {v : Key} (h : m.role? k = some r)
    (hv : r.drawnOn? = some v) : m.IsComponent k := by
  obtain ⟨⟨id, owner, body⟩, ho, rfl⟩ := get?_of_role? h
  cases body with
  | diagramObject d => exact .inl (by simp [diagramObject?, ho, Body.diagramObject?])
  | connection c => exact .inr (by simp [connection?, ho, Body.connection?])
  | folder _ => cases hv
  | concept _ => cases hv
  | view _ => cases hv

/-! ## The property -/

theorem Consistent.resolved (h : m.Consistent) {o : Object} (ho : m.get? k = some o) :
    m.Resolved o := by
  have hfit := h.fits ho
  have hres := hfit.1
  have hdrawn {v : Key} (hv : o.role.drawnOn? = some v) : m.role? v = some .view :=
    h.drawn (role?_of_get? ho) hv
  obtain ⟨id, owner, body⟩ := o
  cases body with
  | folder f =>
    intro p hp
    obtain ⟨t, ht⟩ := h.holds ho hp
    exact folder?_of_role? ht
  | concept c =>
    obtain ⟨p, hown, t, ht⟩ := hfit.exists_owner (by rintro t r ⟨⟩)
    refine ⟨⟨p, hown, folder?_of_role? ht⟩, fun s t hends => ?_⟩
    have hconcept : ∀ e ∈ [s, t], (m.concept? e).isSome = true := by
      intro e he
      have hmem : e ∈ (Role.concept c.kind).references := by
        simpa [Role.references, hends] using he
      obtain ⟨kind, hkind⟩ := hres e hmem
      obtain ⟨c', hc', -⟩ := concept?_of_role? hkind
      rw [hc']
      rfl
    exact ⟨hconcept s (by simp), hconcept t (by simp)⟩
  | view v =>
    obtain ⟨p, hown, t, ht⟩ := hfit.exists_owner (by rintro t r ⟨⟩)
    exact ⟨p, hown, folder?_of_role? ht⟩
  | diagramObject d =>
    obtain ⟨p, hown, hp⟩ := hfit.exists_owner (by rintro t r ⟨⟩)
    refine ⟨⟨p, hown, ?_⟩, view?_of_role? (hdrawn rfl), fun e he => ?_, fun v hv => ?_⟩
    · rcases hp with ⟨hview, -⟩ | ⟨s, hs⟩
      · exact .inl (view?_of_role? hview)
      · exact .inr (diagramObject?_of_role? hs)
    · simp only [Object.role, he, Shown.outline] at hres
      obtain ⟨t, ht⟩ := hres
      obtain ⟨c, hc, hkind⟩ := concept?_of_role? ht
      exact ⟨c, hc, by rw [hkind]; rfl⟩
    · simp only [Object.role, hv, Shown.outline] at hres
      exact view?_of_role? hres
  | connection c =>
    obtain ⟨p, hown, -, hends⟩ := hfit.exists_owner (by rintro t r ⟨⟩)
    have hcomponent : ∀ e ∈ [c.source, c.target], m.IsComponent e := by
      intro e he
      obtain ⟨q, hq, hqd⟩ := hends e he
      exact isComponent_of_role? hq hqd
    refine ⟨⟨p, hown, view?_of_role? (hdrawn hown)⟩, hcomponent _ (by simp),
      hcomponent _ (by simp), fun r hr => ?_⟩
    simp only [Object.role, hr] at hres
    obtain ⟨t, a, b, hrel⟩ := hres
    obtain ⟨e, he, hkind⟩ := concept?_of_role? hrel
    exact ⟨e, he, by rw [hkind]; rfl⟩

/-- In every reachable model all references resolve. -/
theorem Reachable.noDangling (h : m.Reachable) : m.NoDangling where
  resolved _ _ ho := h.sound.resolved ho
  linked k o ho kind hkind := by
    have hend : m.end? kind k = o.body.end? kind := by
      rw [end?, ho]
      rfl
    rw [h.sound.links.outgoing_eq (contains_of_get? ho) hkind, hend]

/-- A connection that is detached has no links to its ends and goes on to know them. -/
theorem noDangling_detached :
    let m₁ := ((new 1 "Plan").apply (.addView "Map")).2
    let view := (new 1 "Plan").nextKey
    let m₂ := (m₁.apply (.addNote view "here")).2
    let m₃ := (m₂.apply (.addNote view "there")).2
    let m₄ := (m₃.apply (.addConnection m₁.nextKey m₂.nextKey)).2
    let n := (m₄.apply (.disconnect m₃.nextKey)).2
    n.Reachable ∧ n.outgoing .source m₃.nextKey = [] ∧
      (∃ c, n.connection? m₃.nextKey = some c ∧ c.isConnected = false ∧ n.IsComponent c.source) ∧
      n.NoDangling := by
  intro m₁ view m₂ m₃ m₄ n
  have hn : n.Reachable :=
    .step (.step (.step (.step (.step (.new 1 "Plan") (.apply _)) (.apply _)) (.apply _))
      (.apply _)) (.apply _)
  have hc : n.connection? m₃.nextKey = some ⟨⟨"", ""⟩, none, m₁.nextKey, m₂.nextKey, false⟩ := by
    decide
  obtain ⟨o, ho, hbody⟩ := Option.bind_eq_some_iff.1 hc
  have hd := hn.noDangling
  have hres := hd.resolved _ o ho
  have hlinked := hd.linked _ o ho .source (by decide)
  rw [Resolved, Body.eq_of_connection? hbody] at hres
  rw [Body.eq_of_connection? hbody] at hlinked
  exact ⟨hn, hlinked, ⟨_, hc, rfl, hres.2.1⟩, hd⟩

end ModelLabels.Model
