import ModelLabels.Proofs.DescribedLabels
import ModelLabels.Proofs.IdentifierIndex
import ModelLabels.Proofs.Navigation
/-! # Components are labelled like what they stand for

Routes and attributes follow what an object stands for in two ways that do not share any code.  They agree:
a label of a box that shows an element, or of a line that draws a relationship, is the label of the concept,
as far as it is read of the concept and not of the diagram.  A reference is labelled like its view.

* `Directive.OfConcept`, `Directive.OfSelf`: the directives whose labels agree.
* `Consistent.navigate_of_standsFor`, `Consistent.renderAttribute_of_speaksFor`: routes and attributes.
* `Model.LabelledAlike`: the same labels for two objects; `Reachable.labelled_alike`: the property.
-/

namespace ModelLabels
set_option autoImplicit false

/-- Whether a route starts at the concept that an object stands for. -/
def Route.FromConcept : Route → Prop
  | along .source | along .target | along .modelFolder | along .model | related _ _ => True
  | current | along .parent | along .viewFolder | along .view => False

namespace Directive

/-- Whether a directive asks for what an object speaks for, and not for its own identifier. -/
def OfSelf (d : Directive) : Prop := d.route.node = .current ∧ d.attr.node ≠ .id

def OfConcept (d : Directive) : Prop := d.route.node.FromConcept ∨ d.OfSelf

end Directive

namespace Model
variable {m : Model} {c v x y : Key} {o p : Object} {attr : Attribute}

/-! ## Routes -/

theorem Consistent.standsFor_self (h : m.Consistent) (hc : m.StandsFor x c) : m.StandsFor c c := by
  obtain ⟨kind, hkind⟩ := h.concept_of_standsFor hc
  obtain ⟨concept, hconcept, -⟩ := concept?_of_role? hkind
  obtain ⟨id, owner, ho⟩ := get?_of_concept? hconcept
  exact ⟨_, ho, rfl⟩

/-- The ends of an object that stands for a concept are those of the concept. -/
theorem Consistent.endpoint?_of_standsFor (h : m.Consistent) (hc : m.StandsFor x c) (e : Endpoint) :
    m.endpoint? x e = (m.ends? c).map e.pick := by
  obtain ⟨⟨id, owner, body⟩, ho, hbody⟩ := hc
  have hresolved := h.resolved ho
  rw [endpoint?, ho]
  cases body with
  | folder f => cases hbody
  | view w => cases hbody
  | concept concept =>
    obtain rfl : c = x := hbody
    rw [ends?, concept?_of_get? ho]
    rfl
  | diagramObject d =>
    -- What is shown is an element, and so has no ends either.
    obtain ⟨-, -, helement, -⟩ := hresolved
    obtain ⟨concept, hconcept, hkind⟩ := helement c hbody
    have hends : concept.kind.ends? = none := by
      simpa [ConceptKind.isRelationship] using hkind
    rw [ends?, hconcept, Option.bind_some, hends]
    rfl
  | connection l =>
    have hl : l.relationship = some c := hbody
    dsimp only
    rw [hl]

theorem relatedEnd?_congr {ix jx : GraphIndex} (hix : ix.Serves m) (hjx : jx.Serves m)
    (hx : m.underlyingConcept? x = some c) (hy : m.underlyingConcept? y = some c) (r : Relation)
    (e : Endpoint) : (relatedEnd? m x r e ix).1 = (relatedEnd? m y r e jx).1 := by
  cases r with
  | unknown keyword => rfl
  | known type => rw [Sound.relatedEnd?_fst hix hx, Sound.relatedEnd?_fst hjx hy]

/-- From an object that stands for a concept, the routes for concepts lead where they lead from the
concept. -/
theorem Consistent.navigate_of_standsFor (h : m.Consistent) {ix jx : GraphIndex} (hix : ix.Serves m)
    (hjx : jx.Serves m) (hc : m.StandsFor x c) {route : Route} (hroute : route.FromConcept) :
    (navigate m (.object x) route ix).1 = (navigate m (.object c) route jx).1 := by
  have hself := h.standsFor_self hc
  have hconcept : m.underlyingConcept? x = m.underlyingConcept? c :=
    (standsFor_iff.1 hc).trans (standsFor_iff.1 hself).symm
  have hends (e : Endpoint) : m.endpoint? x e = m.endpoint? c e :=
    (h.endpoint?_of_standsFor hc e).trans (h.endpoint?_of_standsFor hself e).symm
  cases route with
  | current => cases hroute
  | related r e =>
    show (relatedEnd? m x r e ix).1.map Target.object = (relatedEnd? m c r e jx).1.map Target.object
    rw [relatedEnd?_congr hix hjx (standsFor_iff.1 hc) (standsFor_iff.1 hself)]
  | along keyword =>
    cases keyword with
    | source =>
      show (m.endpoint? x .source).map Target.object = (m.endpoint? c .source).map Target.object
      rw [hends]
    | target =>
      show (m.endpoint? x .target).map Target.object = (m.endpoint? c .target).map Target.object
      rw [hends]
    | modelFolder =>
      show ((m.underlyingConcept? x).bind m.conceptFolder?).map Target.object =
        ((m.underlyingConcept? c).bind m.conceptFolder?).map Target.object
      rw [hconcept]
    | model => rfl
    | parent => cases hroute
    | viewFolder => cases hroute
    | view => cases hroute

/-! ## Attributes -/

/-- Two objects that speak for the same one differ in their identifiers only. -/
theorem Consistent.renderAttribute_of_speaksFor (h : m.Consistent) (ho : m.get? x = some o)
    (hp : m.get? y = some p) (hsame : m.speaksFor x = m.speaksFor y) (hattr : attr ≠ .id) :
    renderAttribute m (.object x) attr = renderAttribute m (.object y) attr := by
  obtain ⟨q, hq, -, hsubject⟩ := h.subject_eq ho
  obtain ⟨q', hq', -, hsubject'⟩ := h.subject_eq hp
  rw [hsame, hq'] at hq
  cases hq
  rw [renderAttribute, renderAttribute, hsubject, hsubject']
  congr 2
  funext s
  cases attr with
  | id => exact absurd rfl hattr
  | _ => rfl

theorem speaksFor_of_standsFor (hc : m.StandsFor x c) : m.speaksFor x = c := by
  obtain ⟨⟨id, owner, body⟩, ho, hbody⟩ := hc
  rw [speaksFor_of_get? ho]
  cases body with
  | folder f => cases hbody
  | view w => cases hbody
  | concept concept => exact hbody.symm
  | diagramObject d =>
    have hd : d.shows = .element c := hbody
    rw [Body.speaksFor, hd]
    rfl
  | connection l =>
    have hl : l.relationship = some c := hbody
    rw [Body.speaksFor, hl]
    rfl

/-! ## The property -/

/-- Two objects that are there have the same label for every text whose directives meet a condition, with
all renderers that may be used; that is so for a text that is one such directive.  Their identifiers tell
them apart. -/
structure LabelledAlike (m : Model) (x y : Key) (asked : Directive → Prop) : Prop where
  live : m.contains x = true ∧ m.contains y = true
  directive : ∀ (text : String) (d : Directive), d.Written 0 text.toList → asked d →
    ∀ r r' : Renderer, r.Serves m → r'.Serves m →
      (Renderer.render m (.object x) text r).1 = (Renderer.render m (.object y) text r').1
  text : ∀ text : String, (∀ d ∈ (Template.ofString text).directives, asked d.node) →
    ∀ r r' : Renderer, r.Serves m → r'.Serves m →
      (Renderer.render m (.object x) text r).1 = (Renderer.render m (.object y) text r').1
  identifiers : x ≠ y → ∀ r r' : Renderer, r.Serves m → r'.Serves m →
    (Renderer.render m (.object x) idTemplate r).1 ≠ (Renderer.render m (.object y) idTemplate r').1

theorem Sound.labelledAlike (h : m.Sound) {asked : Directive → Prop} (ho : m.get? x = some o)
    (hp : m.get? y = some p)
    (hasked : ∀ d, asked d → d.value m (.object x) = d.value m (.object y)) :
    m.LabelledAlike x y asked := by
  have hx : m.hasTarget (.object x) = true := contains_of_get? ho
  have hy : m.hasTarget (.object y) = true := contains_of_get? hp
  have htext (text : String) (hdirectives : ∀ d ∈ (Template.ofString text).directives, asked d.node)
      (r r' : Renderer) (hr : r.Serves m) (hr' : r'.Serves m) :
      (Renderer.render m (.object x) text r).1 = (Renderer.render m (.object y) text r').1 := by
    rw [hr.render_fst hx, hr'.render_fst hy]
    exact Segment.filled_congr fun d hd => hasked d.node (hdirectives d hd)
  refine ⟨⟨hx, hy⟩, fun text d hd hask => htext text ?_, htext, fun hne r r' hr hr' heq => ?_⟩
  · rw [Template.directives, Template.segments_of_written hd]
    simpa [Segment.directive?] using hask
  · rw [hr.render_id h.toConsistent ho, hr'.render_id h.toConsistent hp] at heq
    exact hne (h.ids.distinct.injective x y o p ho hp heq)

theorem Consistent.value_of_speaksFor (h : m.Consistent) (ho : m.get? x = some o)
    (hp : m.get? y = some p) (hsame : m.speaksFor x = m.speaksFor y) {d : Directive} (hd : d.OfSelf) :
    d.value m (.object x) = d.value m (.object y) := by
  obtain ⟨hcurrent, hattr⟩ := hd
  rw [Directive.value_current hcurrent, Directive.value_current hcurrent,
    h.renderAttribute_of_speaksFor ho hp hsame hattr]

/-- In every reachable model an object that stands for a concept is labelled like the concept, and a
reference like its view, but for what is read of the diagram and for identifiers, which differ. -/
theorem Reachable.labelled_alike (h : m.Reachable) :
    (∀ x c, m.StandsFor x c → m.LabelledAlike x c Directive.OfConcept) ∧
      ∀ x o v view, m.get? x = some o → o.body = .diagramObject ⟨.reference v, view⟩ →
        m.LabelledAlike x v Directive.OfSelf := by
  have hm := h.sound.toConsistent
  constructor
  · intro x c hc
    have hself := hm.standsFor_self hc
    have ⟨o, ho, _⟩ := hc
    have ⟨p, hp, _⟩ := hself
    have hsame : m.speaksFor x = m.speaksFor c :=
      (speaksFor_of_standsFor hc).trans (speaksFor_of_standsFor hself).symm
    refine h.sound.labelledAlike ho hp ?_
    rintro d (hroute | hd)
    · rw [Directive.value, Directive.value, hm.navigate_of_standsFor .empty .empty hc hroute]
    · exact hm.value_of_speaksFor ho hp hsame hd
  · intro x o v view ho hbody
    have hresolved := hm.resolved ho
    rw [Resolved, hbody] at hresolved
    obtain ⟨-, -, -, hreference⟩ := hresolved
    obtain ⟨w, hw⟩ := Option.isSome_iff_exists.1 (hreference v rfl)
    obtain ⟨id, owner, hp⟩ := get?_of_view? hw
    have hsame : m.speaksFor x = m.speaksFor v := by
      rw [speaksFor_of_get? ho, speaksFor_of_get? hp, hbody]
      rfl
    exact h.sound.labelledAlike ho hp fun d hd => hm.value_of_speaksFor ho hp hsame hd

/-- A line that was detached from its ends and has a name of its own, and a reference to the view of
another one. -/
theorem labelled_alike_detached :
    let plan := new 1 "Plan"
    let actor := plan.nextKey
    let m₁ := (plan.apply (.addElement .businessActor "Buyer")).2
    let role := m₁.nextKey
    let m₂ := (m₁.apply (.addElement .businessRole "Client")).2
    let assignment := m₂.nextKey
    let m₃ := (m₂.apply (.addRelationship .assignment actor role)).2
    let view := m₃.nextKey
    let m₄ := (m₃.apply (.addView "Main")).2
    let source := m₄.nextKey
    let m₅ := (m₄.apply (.addElementObject view actor)).2
    let target := m₅.nextKey
    let m₆ := (m₅.apply (.addElementObject view role)).2
    let line := m₆.nextKey
    let m₇ := (m₆.apply (.addRelationshipConnection assignment source target)).2
    let reference := m₇.nextKey
    let m₈ := (m₇.apply (.addReference view view)).2
    let m := ((m₈.apply (.disconnect line)).2.apply (.setName line "Signs")).2
    let r := Renderer.new .default
    m.Reachable ∧ m.StandsFor line assignment ∧ r.Serves m ∧
      (Renderer.render m (.object line) "$source\x7bname\x7d" r).1 = "Buyer" ∧
      (Renderer.render m (.object reference) "$\x7bname\x7d" r).1 = "Main" := by
  intro plan actor m₁ role m₂ assignment m₃ view m₄ source m₅ target m₆ line m₇ reference m₈ m r
  have hm : m.Reachable := .step (.step (.step (.step (.step (.step (.step (.step (.step (.step
    (.new 1 "Plan") (.apply _)) (.apply _)) (.apply _)) (.apply _)) (.apply _)) (.apply _)) (.apply _))
    (.apply _)) (.apply _)) (.apply _)
  have hr : r.Serves m := Renderer.serves_new m .default
  have hline : m.StandsFor line assignment := standsFor_iff.2 (by decide +kernel)
  obtain ⟨hconcepts, hreferences⟩ := hm.labelled_alike
  have hshown : (m.get? reference).map (·.body) = some (.diagramObject ⟨.reference view, view⟩) := by
    decide +kernel
  obtain ⟨o, ho, hbody⟩ := Option.map_eq_some_iff.1 hshown
  have hname : Attribute.Spelling ['n', 'a', 'm', 'e'] .name :=
    Attribute.ofChars?_eq_some_iff.1 (by decide)
  have hsource : Route.Spelling ['s', 'o', 'u', 'r', 'c', 'e'] (.along .source) := .along (by decide)
  refine ⟨hm, hline, hr, ?_, ?_⟩
  · have hwritten : Directive.Written 0 "$source\x7bname\x7d".toList _ := .mk hsource hname
    rw [(hconcepts line assignment hline).directive _ _ hwritten (.inl trivial) r r hr hr]
    decide +kernel
  · have hwritten : Directive.Written 0 "$\x7bname\x7d".toList _ := .mk .current hname
    rw [(hreferences reference o view view ho hbody).directive _ _ hwritten ⟨rfl, by decide⟩ r r hr hr]
    decide +kernel

end Model
end ModelLabels
