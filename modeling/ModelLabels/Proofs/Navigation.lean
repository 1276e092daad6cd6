import ModelLabels.Proofs.FolderTree
import ModelLabels.Proofs.References
import ModelLabels.Proofs.SnapshotContent
import ModelLabels.Proofs.SteadyIndex
/-! # Where routes lead

In every reachable model, and with every index that may be asked about it, a route leads somewhere
exactly if there is something for it to follow at its root, and then to an object that is there and of
the kind that the route is for.

* `Model.StandsFor`, `Model.Joins`: concepts and the relationships that touch them.
* `Model.CanFollow`: whether there is something for a route to follow.
* `Model.LeadsTo`: the targets a route may lead to.
* `Reachable.navigate_exact`: the property.
-/

namespace ModelLabels
set_option autoImplicit false

namespace Model
variable {m : Model} {k c p x : Key} {o : Object}

/-! ## What a route asks for -/

/-- A concept stands for itself, an element object for its element, and a connection for its
relationship. -/
def StandsFor (m : Model) (k c : Key) : Prop :=
  ∃ o, m.get? k = some o ∧
    match o.body with
    | .concept _ => c = k
    | .diagramObject d => d.shows = .element c
    | .connection l => l.relationship = some c
    | .folder _ | .view _ => False

/-- Whether an object is a relationship of a type from or to a concept. -/
def Joins (m : Model) (x : Key) (type : RelationshipType) (c : Key) : Prop :=
  ∃ concept source target, m.concept? x = some concept ∧
    concept.kind = .relationship type source target ∧ (source = c ∨ target = c)

/-- Whether an object has a source and a target: a relationship, or a connection. -/
def HasEnds (m : Model) (k : Key) : Prop :=
  (∃ concept, m.concept? k = some concept ∧ concept.kind.isRelationship = true) ∨
    (m.connection? k).isSome = true

/-- The view that an object is drawn on. -/
def drawnOn? (m : Model) (k : Key) : Option Key := (m.get? k).bind (·.drawnOn?)

/-- Whether there is something for a route to follow at an object. -/
def CanFollow (m : Model) (k : Key) : Route → Prop
  | .current | .along .model => True
  | .along .parent => (m.diagramObject? k).isSome = true
  | .along .modelFolder => ∃ c, m.StandsFor k c
  | .along .viewFolder => m.folder? k = none
  | .along .view => (m.view? k).isSome = true ∨ m.IsComponent k ∨
      (m.concept? k).isSome = true ∧ ∃ x, m.IsComponent x ∧ m.StandsFor x k
  | .along .source | .along .target => m.HasEnds k
  | .related relation _ => ∃ type c x, relation = .known type ∧ m.StandsFor k c ∧ m.Joins x type c

/-- The container of a diagram object: a view, or a diagram object on the same view. -/
def IsContainer (m : Model) (k p : Key) : Prop :=
  m.owner? k = some p ∧ ∃ v, m.drawnOn? k = some v ∧
    (p = v ∧ (m.view? p).isSome = true ∨ ∃ d, m.diagramObject? p = some d ∧ d.view = v)

/-- The folder of a concept: it accepts the category of the concept, and is not among the views. -/
def IsConceptFolder (m : Model) (c f : Key) : Prop :=
  m.owner? c = some f ∧ ∃ concept folder, m.concept? c = some concept ∧ m.folder? f = some folder ∧
    folder.accepts concept.kind.category = true ∧ ¬ m.InTree .views f

/-- A view itself, the view of a component, or a view that shows a concept. -/
def IsViewOf (m : Model) (k v : Key) : Prop :=
  (m.view? v).isSome = true ∧ (v = k ∨ m.drawnOn? k = some v ∨ ∃ x, m.ShowsOn x k v)

/-- The folder of a view of an object; for an object that no view shows, the folder of all views. -/
def IsViewFolder (m : Model) (k f : Key) : Prop :=
  (m.folder? f).isSome = true ∧ m.InTree .views f ∧
    ((∃ v, m.IsViewOf k v ∧ m.owner? v = some f) ∨
      (∀ x, m.IsComponent x → ¬ m.StandsFor x k) ∧ m.topLevelFolder? .views = some f)

/-- An end of a relationship, which is a concept. -/
def IsEndOf (m : Model) (relationship : Key) (e : Endpoint) (c : Key) : Prop :=
  (m.ends? relationship).map e.pick = some c ∧ (m.concept? c).isSome = true

/-- What stands at an end of a plain connection: the element that the component there shows; or the
component, if it is no element object, which is on the same view. -/
def IsShownAt (m : Model) (k : Key) (e : Endpoint) (x : Key) : Prop :=
  ∃ l, m.connection? k = some l ∧ l.relationship = none ∧
    ((∃ d, m.diagramObject? (e.pick (l.source, l.target)) = some d ∧ d.shows = .element x ∧
        (m.concept? x).isSome = true) ∨
      x = e.pick (l.source, l.target) ∧ m.IsComponent x ∧ m.drawnOn? x = m.drawnOn? k ∧
        ∀ d c, m.diagramObject? x = some d → d.shows ≠ .element c)

/-- What stands at an end of a relationship, of one that is drawn, or of a plain connection. -/
def IsEnd (m : Model) (k : Key) (e : Endpoint) (x : Key) : Prop :=
  (∃ r, m.StandsFor k r ∧ m.IsEndOf r e x) ∨ m.IsShownAt k e x

/-- The targets that a route may lead to from an object. -/
def LeadsTo (m : Model) (k : Key) : Route → Target → Prop
  | .current, t => t = .object k
  | .along .model, t => t = .model
  | .along .parent, .object p => m.IsContainer k p
  | .along .modelFolder, .object f => ∃ c, m.StandsFor k c ∧ m.IsConceptFolder c f
  | .along .viewFolder, .object f => m.IsViewFolder k f
  | .along .view, .object v => m.IsViewOf k v
  | .along .source, .object x => m.IsEnd k .source x
  | .along .target, .object x => m.IsEnd k .target x
  | .related relation e, .object x => ∃ type c r,
      relation = .known type ∧ m.StandsFor k c ∧ m.Joins r type c ∧ m.IsEndOf r e x
  | _, .model => False

theorem drawnOn?_of_get? (ho : m.get? k = some o) : m.drawnOn? k = o.drawnOn? := by
  rw [drawnOn?, ho, Option.bind_some]

theorem drawnOn?_of_role? {r : Role} (h : m.role? k = some r) : m.drawnOn? k = r.drawnOn? := by
  obtain ⟨o, ho, rfl⟩ := get?_of_role? h
  rw [drawnOn?_of_get? ho, Object.drawnOn?_role]

theorem ends?_of_role? {kind : ConceptKind} (h : m.role? k = some (.concept kind)) :
    m.ends? k = kind.ends? := by
  obtain ⟨concept, hconcept, rfl⟩ := concept?_of_role? h
  rw [ends?, hconcept, Option.bind_some]

theorem standsFor_iff : m.StandsFor k c ↔ m.underlyingConcept? k = some c := by
  unfold StandsFor underlyingConcept?
  cases m.get? k with
  | none => simp
  | some o =>
    obtain ⟨id, owner, body⟩ := o
    cases body with
    | diagramObject d =>
      obtain ⟨shows, view⟩ := d
      cases shows <;> simp [Body.depicted?, Shown.concept?]
    | _ => simp [Body.depicted?, eq_comm]

theorem touches_iff : m.touches c x = true ↔ ∃ type, m.Joins x type c := by
  unfold touches ends? Joins
  cases m.concept? x with
  | none => simp
  | some concept => cases hkind : concept.kind <;> simp [hkind, ConceptKind.ends?]

theorem Consistent.concept_of_standsFor (h : m.Consistent) (hc : m.StandsFor k c) :
    ∃ kind, m.role? c = some (.concept kind) := by
  obtain ⟨⟨id, owner, body⟩, ho, hbody⟩ := hc
  obtain ⟨hres, -⟩ := h.fits ho
  cases body with
  | folder f => cases hbody
  | view v => cases hbody
  | concept concept =>
    obtain rfl : c = k := hbody
    exact ⟨_, role?_of_get? ho⟩
  | diagramObject d =>
    have hshows : d.shows = .element c := hbody
    simp only [Object.role, hshows, Shown.outline] at hres
    obtain ⟨t, ht⟩ := hres
    exact ⟨_, ht⟩
  | connection l =>
    have hdrawn : l.relationship = some c := hbody
    simp only [Object.role, hdrawn] at hres
    obtain ⟨t, a, b, hr⟩ := hres
    exact ⟨_, hr⟩

/-! ## Steps -/

/-- Something is found exactly if there is something to follow, and it is such an object. -/
structure Finds (found : Option Key) (can : Prop) (leads : Key → Prop) : Prop where
  isSome_iff : found.isSome = true ↔ can
  leads : ∀ x, found = some x → leads x

namespace Finds
variable {can : Prop} {leads : Key → Prop}

theorem of_some (hcan : can) (hx : leads x) : Finds (some x) can leads :=
  ⟨⟨fun _ => hcan, fun _ => rfl⟩, fun _ h => by cases h; exact hx⟩

theorem of_none (hnot : ¬ can) : Finds none can leads :=
  ⟨⟨nofun, fun h => absurd h hnot⟩, nofun⟩

theorem congr {found : Option Key} {can' : Prop} (h : Finds found can leads) (hcan : can ↔ can') :
    Finds found can' leads := ⟨h.isSome_iff.trans hcan, h.leads⟩

theorem target {found : Option Key} {targets : Target → Prop} (h : Finds found can leads)
    (hleads : ∀ x, leads x → targets (.object x)) :
    ((found.map Target.object).isSome = true ↔ can) ∧
      ∀ t, found.map Target.object = some t → targets t := by
  rw [Option.isSome_map]
  refine ⟨h.isSome_iff, fun t ht => ?_⟩
  obtain ⟨x, hx, rfl⟩ := Option.map_eq_some_iff.1 ht
  exact hleads x (h.leads x hx)

end Finds

namespace Sound

theorem finds_container (h : m.Sound) (ho : m.get? k = some o) :
    Finds (m.container? k) ((m.diagramObject? k).isSome = true) (m.IsContainer k) := by
  rw [container?, diagramObject?_of_get? ho, owner?_of_get? ho]
  cases hbody : o.body with
  | diagramObject d =>
    have hrole : o.role = .diagramObject d.shows.outline d.view := by rw [Object.role, hbody]
    obtain ⟨p, hown, hp⟩ := (h.fits ho).exists_owner (by simp [hrole])
    have hdrawn : m.drawnOn? k = some d.view := by
      rw [drawnOn?_of_get? ho, Object.drawnOn?, hbody]
    rw [hown]
    refine .of_some rfl ⟨(owner?_of_get? ho).trans hown, d.view, hdrawn, ?_⟩
    rw [hrole] at hp
    rcases hp with ⟨hp, hv⟩ | ⟨s, hs⟩
    · exact .inl ⟨hv.symm, view?_of_role? hp⟩
    · exact .inr (exists_diagramObject_of_role? hs)
  | _ => exact .of_none (by simp [Body.diagramObject?])

theorem finds_conceptFolder (h : m.Sound) (ht : m.TypesExact) (k : Key) :
    Finds ((m.underlyingConcept? k).bind m.conceptFolder?) (∃ c, m.StandsFor k c)
      fun f => ∃ c, m.StandsFor k c ∧ m.IsConceptFolder c f := by
  cases hc : m.underlyingConcept? k with
  | none => exact .of_none (by simp [standsFor_iff, hc])
  | some c =>
    have hstands : m.StandsFor k c := standsFor_iff.2 hc
    obtain ⟨kind, hkind⟩ := h.concept_of_standsFor hstands
    obtain ⟨concept, hconcept, rfl⟩ := concept?_of_role? hkind
    obtain ⟨f, howner, t, ht'⟩ := h.exists_owner hkind nofun
    obtain ⟨folder, hfolder, -, hroot⟩ := exists_folder_of_role? ht'
    have hfound : m.conceptFolder? c = some f := by
      rw [conceptFolder?, hconcept, howner]
      rfl
    rw [Option.bind_some, hfound]
    refine .of_some ⟨c, hstands⟩ ⟨c, hstands, howner, concept, folder, hconcept, hfolder, ?_, ?_⟩
    · simp [Folder.accepts, hroot]
    · rw [h.inTree_iff ht ht']
      exact (FolderType.forCategory_ne_views _).symm

end Sound

/-! ### Views -/

theorem isComponent_iff (ho : m.get? k = some o) : m.IsComponent k ↔
    (o.body.diagramObject?).isSome = true ∨ (o.body.connection?).isSome = true := by
  rw [IsComponent, diagramObject?_of_get? ho, connection?_of_get? ho]

/-- Whatever is no folder is a view, a component of a view, or a concept. -/
theorem folder?_eq_none_iff (ho : m.get? k = some o) : m.folder? k = none ↔
    (m.view? k).isSome = true ∨ m.IsComponent k ∨ (m.concept? k).isSome = true := by
  rw [isComponent_iff ho, folder?_of_get? ho, view?_of_get? ho, concept?_of_get? ho]
  cases o.body <;>
    simp [Body.folder?, Body.view?, Body.diagramObject?, Body.connection?, Body.concept?]

theorem ShowsOn.isComponent {v : Key} (h : m.ShowsOn x c v) : m.IsComponent x ∧ m.StandsFor x c := by
  obtain ⟨⟨id, owner, body⟩, ho, hdepicted, -⟩ := h
  rw [isComponent_iff ho]
  cases body with
  | diagramObject d =>
    obtain ⟨shows, view⟩ := d
    cases shows with
    | element e =>
      cases hdepicted
      exact ⟨.inl rfl, _, ho, rfl⟩
    | _ => cases hdepicted
  | connection l => exact ⟨.inr rfl, _, ho, hdepicted⟩
  | _ => cases hdepicted

theorem Consistent.exists_showsOn (h : m.Consistent) (hx : m.IsComponent x)
    (hc : m.StandsFor x c) : ∃ v, m.ShowsOn x c v := by
  obtain ⟨o, ho, hbody⟩ := hc
  rw [isComponent_iff ho] at hx
  cases hb : o.body with
  | folder f => simp [hb, Body.diagramObject?, Body.connection?] at hx
  | view v => simp [hb, Body.diagramObject?, Body.connection?] at hx
  | concept e => simp [hb, Body.diagramObject?, Body.connection?] at hx
  | diagramObject d =>
    simp only [hb] at hbody
    exact ⟨d.view, o, ho, by simp [hb, Body.depicted?, hbody, Shown.concept?],
      by simp [Object.drawnOn?, hb]⟩
  | connection l =>
    simp only [hb] at hbody
    obtain ⟨p, hown, -⟩ := (h.fits ho).exists_owner (by simp [Object.role, hb])
    exact ⟨p, o, ho, by simp [hb, Body.depicted?, hbody], by simp [Object.drawnOn?, hb, hown]⟩

theorem enclosingView?_fst {ix : GraphIndex} (hix : ix.Serves m) (ho : m.get? k = some o) :
    (enclosingView? m k ix).1 =
      match o.body with
      | .view _ => some k
      | .concept _ => ((Snapshot.of m).views.getD k []).head?
      | .folder _ | .diagramObject _ | .connection _ => o.drawnOn? := by
  unfold enclosingView?
  rw [ho]
  dsimp only
  cases o.body with
  | concept concept => exact congrArg List.head? (hix.referencingViews_fst k)
  | _ => rfl

namespace Sound
variable {ix : GraphIndex}

theorem finds_shownOn (h : m.Sound) (c : Key) :
    Finds ((Snapshot.of m).views.getD c []).head? (∃ x, m.IsComponent x ∧ m.StandsFor x c)
      (m.IsViewOf c) := by
  constructor
  · rw [List.isSome_head?]
    constructor
    · intro hne
      obtain ⟨v, hv⟩ := List.exists_mem_of_ne_nil _ hne
      obtain ⟨x, hx⟩ := h.mem_views.1 hv
      exact ⟨x, hx.isComponent⟩
    · rintro ⟨x, hx, hc⟩
      obtain ⟨v, hv⟩ := h.exists_showsOn hx hc
      exact List.ne_nil_of_mem (h.mem_views.2 ⟨x, hv⟩)
  · intro v hv
    obtain ⟨x, hx⟩ := h.mem_views.1 (List.mem_of_head? hv)
    have ⟨o, ho, _, hdrawn⟩ := hx
    have hview := h.drawn (role?_of_get? ho) (o.drawnOn?_role.trans hdrawn)
    exact ⟨view?_of_role? hview, .inr (.inr ⟨x, hx⟩)⟩

theorem finds_enclosingView (h : m.Sound) (hix : ix.Serves m) (ho : m.get? k = some o) :
    Finds (enclosingView? m k ix).1
      ((m.view? k).isSome = true ∨ m.IsComponent k ∨
        (m.concept? k).isSome = true ∧ ∃ x, m.IsComponent x ∧ m.StandsFor x k)
      (m.IsViewOf k) := by
  rw [enclosingView?_fst hix ho, isComponent_iff ho, view?_of_get? ho, concept?_of_get? ho]
  have hdrawn {v : Key} (hv : o.drawnOn? = some v) : m.IsViewOf k v :=
    have hview := h.drawn (role?_of_get? ho) (o.drawnOn?_role.trans hv)
    ⟨view?_of_role? hview, .inr (.inl ((drawnOn?_of_get? ho).trans hv))⟩
  cases hbody : o.body with
  | folder f =>
    dsimp only
    rw [Object.drawnOn?, hbody]
    exact .of_none (by simp [Body.view?, Body.diagramObject?, Body.connection?, Body.concept?])
  | view v =>
    refine .of_some (.inl rfl) ⟨?_, .inl rfl⟩
    rw [view?_of_get? ho, hbody]
    rfl
  | diagramObject d =>
    have hview : o.drawnOn? = some d.view := by rw [Object.drawnOn?, hbody]
    dsimp only
    rw [hview]
    exact .of_some (.inr (.inl (.inl rfl))) (hdrawn hview)
  | connection l =>
    obtain ⟨p, hown, -⟩ := (h.fits ho).exists_owner (by simp [Object.role, hbody])
    have hview : o.drawnOn? = some p := by rw [Object.drawnOn?, hbody, hown]
    dsimp only
    rw [hview]
    exact .of_some (.inr (.inl (.inr rfl))) (hdrawn hview)
  | concept concept =>
    refine (h.finds_shownOn k).congr ?_
    simp [Body.view?, Body.diagramObject?, Body.connection?, Body.concept?]

theorem viewFolder?_eq_some (h : m.Sound) (ht : m.TypesExact) {v : Key}
    (hv : (m.view? v).isSome = true) : ∃ f, m.viewFolder? v = some f ∧ m.owner? v = some f ∧
      (m.folder? f).isSome = true ∧ m.InTree .views f := by
  obtain ⟨f, howner, t, hfolder⟩ := h.exists_owner (view?_isSome_iff.1 hv) nofun
  refine ⟨f, ?_, howner, folder?_of_role? hfolder, (h.inTree_iff ht hfolder).2 rfl⟩
  rw [viewFolder?, if_pos hv, howner]

theorem enclosingFolder?_fst (m : Model) (k : Key) (ix : GraphIndex) :
    (enclosingFolder? m k ix).1 =
      match (enclosingView? m k ix).1 with
      | some v => m.viewFolder? v
      | none => if (m.concept? k).isSome then m.topLevelFolder? .views else none := by
  have hrun : enclosingFolder? m k ix = (match (enclosingView? m k ix).1 with
      | some v => pure (m.viewFolder? v)
      | none => pure (if (m.concept? k).isSome then m.topLevelFolder? .views else none) :
        StateM GraphIndex (Option Key)) (enclosingView? m k ix).2 := rfl
  rw [hrun]
  cases (enclosingView? m k ix).1 <;> rfl

theorem finds_enclosingFolder (h : m.Sound) (ht : m.TypesExact) (hix : ix.Serves m)
    (ho : m.get? k = some o) :
    Finds (enclosingFolder? m k ix).1 (m.folder? k = none) (m.IsViewFolder k) := by
  have hview := h.finds_enclosingView hix ho
  have hcan := hview.isSome_iff
  rw [enclosingFolder?_fst, folder?_eq_none_iff ho]
  cases hv : (enclosingView? m k ix).1 with
  | some v =>
    have hleads := hview.leads v hv
    obtain ⟨f, hf, howner, hfolder, htree⟩ := h.viewFolder?_eq_some ht hleads.1
    rw [hv] at hcan
    dsimp only
    rw [hf]
    exact .of_some ((hcan.1 rfl).imp_right (·.imp_right And.left))
      ⟨hfolder, htree, .inl ⟨v, hleads, howner⟩⟩
  | none =>
    -- No view is found: the object is a folder, or a concept that is shown nowhere.
    rw [hv] at hcan
    have hnot := mt hcan.2 Bool.false_ne_true
    dsimp only
    split
    · rename_i hconcept
      obtain ⟨a, ha⟩ := ht.exists_folder (t := .views) (by decide)
      have hfolder := h.top.role (ht.topLevelFolder?_eq_some.1 ha)
      rw [ha]
      refine .of_some (.inr (.inr hconcept))
        ⟨folder?_of_role? hfolder, ⟨a, ha, .refl⟩, .inr ⟨fun x hx hc => ?_, ha⟩⟩
      exact hnot (.inr (.inr ⟨hconcept, x, hx, hc⟩))
    · rename_i hconcept
      refine .of_none ?_
      rintro (hv' | hc | hc)
      · exact hnot (.inl hv')
      · exact hnot (.inr (.inl hc))
      · exact hconcept hc

/-! ### Ends -/

/-- A relationship has two ends, and they are concepts. -/
theorem isEndOf_pick (h : m.Sound) {type : RelationshipType} {source target : Key}
    (hx : m.role? x = some (.concept (.relationship type source target))) (e : Endpoint) :
    m.IsEndOf x e (e.pick (source, target)) := by
  obtain ⟨o, ho, hrole⟩ := get?_of_role? hx
  obtain ⟨hres, -⟩ := h.fits ho
  rw [hrole] at hres
  have hmem : e.pick (source, target) ∈
      (Role.concept (.relationship type source target)).references := by
    cases e <;> simp [Endpoint.pick, Role.references, ConceptKind.ends?]
  obtain ⟨kind, hkind⟩ := hres _ hmem
  obtain ⟨concept, hconcept, -⟩ := concept?_of_role? hkind
  refine ⟨?_, ?_⟩
  · rw [ends?_of_role? hx]
    rfl
  · rw [hconcept]
    rfl

theorem finds_component (h : m.Sound) {l : Connection} {v : Key} (hk : m.connection? k = some l)
    (hl : l.relationship = none) (hkv : m.drawnOn? k = some v) (e : Endpoint) {q : Role}
    (hx : m.role? (e.pick (l.source, l.target)) = some q) (hxv : q.drawnOn? = some v) :
    Finds (m.componentConcept? (e.pick (l.source, l.target))) True (m.IsShownAt k e) := by
  obtain ⟨o, ho, rfl⟩ := get?_of_role? hx
  have hdrawn : m.drawnOn? (e.pick (l.source, l.target)) = m.drawnOn? k := by
    rw [hkv, drawnOn?_of_role? hx, hxv]
  have hcomponent := isComponent_of_role? hx hxv
  unfold componentConcept?
  rw [ho]
  dsimp only
  cases hbody : o.body with
  | diagramObject d =>
    have hd : m.diagramObject? (e.pick (l.source, l.target)) = some d := by
      rw [diagramObject?_of_get? ho, hbody]
      rfl
    dsimp only
    cases hshows : d.shows with
    | element c =>
      have hstands : m.StandsFor (e.pick (l.source, l.target)) c :=
        ⟨o, ho, by rw [hbody]; exact hshows⟩
      obtain ⟨kind, hkind⟩ := h.concept_of_standsFor hstands
      obtain ⟨concept, hconcept, -⟩ := concept?_of_role? hkind
      exact .of_some trivial ⟨l, hk, hl, .inl ⟨d, hd, hshows, by simp [Shown.concept?, hconcept]⟩⟩
    | _ =>
      refine .of_some trivial ⟨l, hk, hl, .inr ⟨rfl, hcomponent, hdrawn, fun d' c hd' => ?_⟩⟩
      have hsame : d' = d := Option.some.inj (hd'.symm.trans hd)
      rw [hsame, hshows]
      nofun
  | _ =>
    refine .of_some trivial ⟨l, hk, hl, .inr ⟨rfl, hcomponent, hdrawn, fun d c hd => ?_⟩⟩
    rw [diagramObject?_of_get? ho, hbody] at hd
    cases hd

theorem finds_endpoint (h : m.Sound) (ho : m.get? k = some o) (e : Endpoint) :
    Finds (m.endpoint? k e) (m.HasEnds k) (m.IsEnd k e) := by
  have hfit := h.fits ho
  unfold endpoint? HasEnds
  rw [concept?_of_get? ho, connection?_of_get? ho, ho]
  dsimp only
  cases hbody : o.body with
  | concept concept =>
    have hstands : m.StandsFor k k := ⟨o, ho, by rw [hbody]⟩
    have hrole : m.role? k = some (.concept concept.kind) := by
      rw [role?_of_get? ho, Object.role, hbody]
    cases hkind : concept.kind with
    | element type =>
      simp only [hkind]
      exact .of_none (by simp [Body.concept?, Body.connection?, hkind, ConceptKind.isRelationship,
        ConceptKind.ends?])
    | relationship type source target =>
      simp only [hkind] at hrole ⊢
      exact .of_some (.inl ⟨concept, rfl, by rw [hkind]; rfl⟩)
        (.inl ⟨k, hstands, h.isEndOf_pick hrole e⟩)
  | connection l =>
    have hk : m.connection? k = some l := by
      rw [connection?_of_get? ho, hbody]
      rfl
    have hline : o.role = .connection l.relationship l.source l.target o.owner := by
      rw [Object.role, hbody]
    dsimp only
    cases hl : l.relationship with
    | some r =>
      have hstands : m.StandsFor k r := ⟨o, ho, by rw [hbody]; exact hl⟩
      have hres := hfit.1
      simp only [hline, hl] at hres
      obtain ⟨type, source, target, hr⟩ := hres
      dsimp only
      rw [ends?_of_role? hr]
      exact .of_some (.inr rfl) (.inl ⟨r, hstands, h.isEndOf_pick hr e⟩)
    | none =>
      obtain ⟨v, hown, hholds⟩ := hfit.exists_owner (by simp [hline])
      rw [hline] at hholds
      have hmem : e.pick (l.source, l.target) ∈ [l.source, l.target] := by
        cases e <;> simp [Endpoint.pick]
      obtain ⟨q, hq, hqv⟩ := hholds.2 _ hmem
      have hkv : m.drawnOn? k = some v := by
        rw [drawnOn?_of_get? ho, Object.drawnOn?, hbody, hown]
      have hfound := h.finds_component hk hl hkv e hq hqv
      exact ⟨hfound.isSome_iff.trans (by simp [Body.connection?]), fun x hx => .inr (hfound.leads x hx)⟩
  | _ => exact .of_none (by simp [Body.concept?, Body.connection?])

theorem relatedEnd?_fst (hix : ix.Serves m) {type : RelationshipType}
    (hc : m.underlyingConcept? k = some c) (e : Endpoint) :
    (relatedEnd? m k (.known type) e ix).1 =
      (((((Snapshot.of m).relationships.getD c []).filterMap fun x =>
        (m.concept? x).map (·.kind)).find? (·.relationshipType? = some type)).bind
          (·.ends?)).map e.pick := by
  rw [← hix.relationshipsOf_fst c]
  unfold relatedEnd?
  rw [hc]
  rfl

theorem finds_relatedEnd (h : m.Sound) (hix : ix.Serves m) (k : Key) (r : Relation)
    (e : Endpoint) :
    Finds (relatedEnd? m k r e ix).1
      (∃ type c y, r = .known type ∧ m.StandsFor k c ∧ m.Joins y type c)
      fun x => ∃ type c y, r = .known type ∧ m.StandsFor k c ∧ m.Joins y type c ∧
        m.IsEndOf y e x := by
  cases r with
  | unknown keyword => exact .of_none (by simp)
  | known type =>
    cases hc : m.underlyingConcept? k with
    | none =>
      have hrun : (relatedEnd? m k (.known type) e ix).1 = none := by
        unfold relatedEnd?
        rw [hc]
        rfl
      rw [hrun]
      exact .of_none (by simp [standsFor_iff, hc])
    | some c =>
      rw [relatedEnd?_fst hix hc]
      generalize hfind : List.find? _ _ = found
      cases found with
      | none =>
        -- A relationship that could be followed would be among those of the snapshot.
        refine .of_none ?_
        rintro ⟨type', c', x, htype, hstands, concept, source, target, hx, hkind, hends⟩
        cases htype
        obtain rfl : c = c' := by simpa [hc] using standsFor_iff.1 hstands
        have hmem : x ∈ (Snapshot.of m).relationships.getD c [] :=
          h.mem_relationships.2 (touches_iff.2 ⟨type, concept, source, target, hx, hkind, hends⟩)
        have hnot := List.find?_eq_none.1 hfind concept.kind
          (List.mem_filterMap.2 ⟨x, hmem, by rw [hx]; rfl⟩)
        simp [hkind, ConceptKind.relationshipType?] at hnot
      | some kind =>
        obtain ⟨x, hmem, hx⟩ := List.mem_filterMap.1 (List.mem_of_find?_eq_some hfind)
        obtain ⟨concept, hconcept, rfl⟩ := Option.map_eq_some_iff.1 hx
        obtain ⟨type', concept', source, target, hx', hkind, hends⟩ :=
          touches_iff.1 (h.mem_relationships.1 hmem)
        rw [hconcept] at hx'
        cases hx'
        obtain rfl : type' = type := by
          simpa [hkind, ConceptKind.relationshipType?] using List.find?_some hfind
        have hrole := role?_of_concept? hconcept
        rw [hkind] at hrole
        simp only [Option.bind_some, hkind, ConceptKind.ends?, Option.map_some]
        have hstands : m.StandsFor k c := standsFor_iff.2 hc
        have hjoins : m.Joins x type' c := ⟨concept, source, target, hconcept, hkind, hends⟩
        exact .of_some ⟨type', c, x, rfl, hstands, hjoins⟩
          ⟨type', c, x, rfl, hstands, hjoins, h.isEndOf_pick hrole e⟩

end Sound

/-! ## The property -/

/-- In every reachable model, a route from an object leads somewhere exactly if there is something for it
to follow, and then to a target of its kind. -/
theorem Reachable.navigate_exact (h : m.Reachable) {ix : GraphIndex} (hix : ix.Serves m)
    (hk : m.contains k = true) (route : Route) :
    ((navigate m (.object k) route ix).1.isSome = true ↔ m.CanFollow k route) ∧
      ∀ t, (navigate m (.object k) route ix).1 = some t → m.LeadsTo k route t := by
  have hs := h.sound
  have ht : m.TypesExact := h.topLevel_types
  obtain ⟨o, ho⟩ := contains_iff_get?.1 hk
  cases route with
  | current => exact ⟨iff_of_true rfl trivial, fun t ht => (Option.some.inj ht).symm⟩
  | related r e => exact (hs.finds_relatedEnd hix k r e).target fun _ hx => hx
  | along w =>
    cases w with
    | source => exact (hs.finds_endpoint ho .source).target fun _ hx => hx
    | target => exact (hs.finds_endpoint ho .target).target fun _ hx => hx
    | parent => exact (hs.finds_container ho).target fun _ hp => hp
    | modelFolder => exact (hs.finds_conceptFolder ht k).target fun _ hf => hf
    | viewFolder => exact (hs.finds_enclosingFolder ht hix ho).target fun _ hf => hf
    | view => exact (hs.finds_enclosingView hix ho).target fun _ hv => hv
    | model => exact ⟨iff_of_true rfl trivial, fun t ht => (Option.some.inj ht).symm⟩

/-- From an element, the one association of a model leads to its other end. -/
theorem navigate_exact_related :
    let m₁ := ((new 1 "Plan").apply (.addElement .businessActor "Buyer")).2
    let buyer := (new 1 "Plan").nextKey
    let m₂ := (m₁.apply (.addElement .businessActor "Seller")).2
    let seller := m₁.nextKey
    let n := (m₂.apply (.addRelationship .association seller buyer)).2
    let ix := (GraphIndex.read n .empty).2
    let route := Route.related (.known .association) .source
    n.Reachable ∧ ix.Serves n ∧ n.contains buyer = true ∧
      ∃ t, (navigate n (.object buyer) route ix).1 = some t ∧ n.LeadsTo buyer route t := by
  intro m₁ buyer m₂ seller n ix route
  have hn : n.Reachable := .step (.step (.step (.new 1 "Plan") (.apply _)) (.apply _)) (.apply _)
  have hix : ix.Serves n := .read .empty
  have hbuyer : n.contains buyer = true := by decide
  have hjoins : n.Joins m₂.nextKey .association buyer :=
    ⟨⟨.named "", .relationship .association seller buyer⟩, seller, buyer, by decide, rfl, .inr rfl⟩
  have hcan : n.CanFollow buyer route :=
    ⟨.association, buyer, m₂.nextKey, rfl, standsFor_iff.2 (by decide), hjoins⟩
  obtain ⟨hiff, hleads⟩ := hn.navigate_exact hix hbuyer route
  obtain ⟨t, ht⟩ := Option.isSome_iff_exists.1 (hiff.2 hcan)
  exact ⟨hn, hix, hbuyer, t, ht, hleads t ht⟩

end Model

end ModelLabels
