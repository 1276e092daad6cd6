import ModelLabels.Proofs.Attachment
import ModelLabels.Proofs.Integrity.Preservation
import ModelLabels.Renderer
/-! # Detaching does not show in labels

Neither routes nor attributes nor the index look at the ends that a connection is attached to.  So when
connections are detached and attached again, in whatever order, all labels stay as they are.

* `SameButAttachment.navigate`, `renderAttribute`: routes lead to the same targets, with the same
  attributes.
* `SameButAttachment.render`: labels are the same, whatever the renderer.
* `Model.AttachmentUnseen`: the property; `Reachable.attachment_unseen`.
-/

namespace ModelLabels.Model
set_option autoImplicit false

variable {m n : Model} {ks : List Key}

namespace SameButAttachment
variable (h : m.SameButAttachment ks n)
include h

/-! ## Objects and their neighbours -/

theorem concept? : n.concept? = m.concept? :=
  funext (h.read_get? (f := fun o? => o?.bind (·.body.concept?)) fun _ _ _ _ => rfl)

theorem view? : n.view? = m.view? :=
  funext (h.read_get? (f := fun o? => o?.bind (·.body.view?)) fun _ _ _ _ => rfl)

theorem diagramObject? : n.diagramObject? = m.diagramObject? :=
  funext (h.read_get? (f := fun o? => o?.bind (·.body.diagramObject?)) fun _ _ _ _ => rfl)

theorem owner? : n.owner? = m.owner? :=
  funext (h.read_get? (f := fun o? => o?.bind (·.owner)) fun _ _ _ _ => rfl)

theorem contains : n.contains = m.contains := funext h.sameStructure.contains

theorem isConnection : n.isConnection = m.isConnection := funext h.sameStructure.isConnection

theorem outgoing : n.outgoing .contains = m.outgoing .contains := funext h.sameStructure.outgoing

theorem children : n.children = m.children := by
  unfold Model.children
  rw [h.outgoing, h.isConnection]

theorem viewConnections : n.viewConnections = m.viewConnections := by
  unfold Model.viewConnections
  rw [h.outgoing, h.isConnection, h.view?]

theorem read : GraphIndex.read n = GraphIndex.read m := by
  unfold GraphIndex.read GraphIndex.current?
  rw [h.stamp, Snapshot.of_congr h.sameStructure h.stamp]

theorem keyOf? : GraphIndex.keyOf? n = GraphIndex.keyOf? m := by
  unfold GraphIndex.keyOf?
  rw [h.read]

theorem relationshipsOf : GraphIndex.relationshipsOf n = GraphIndex.relationshipsOf m := by
  unfold GraphIndex.relationshipsOf
  rw [h.read]

theorem referencingViews : GraphIndex.referencingViews n = GraphIndex.referencingViews m := by
  unfold GraphIndex.referencingViews
  rw [h.read]

/-! ## Routes -/

theorem underlyingConcept? : n.underlyingConcept? = m.underlyingConcept? := by
  funext k
  unfold Model.underlyingConcept?
  rcases h.objects k with hsame | ⟨-, id, owner, c, b, hm, hn⟩
  · rw [hsame]
  · rw [hm, hn]
    rfl

theorem componentConcept? : n.componentConcept? = m.componentConcept? := by
  funext k
  unfold Model.componentConcept?
  rcases h.objects k with hsame | ⟨-, id, owner, c, b, hm, hn⟩
  · rw [hsame]
  · rw [hm, hn]

theorem endpoint? : n.endpoint? = m.endpoint? := by
  funext k e
  unfold Model.endpoint? Model.ends?
  rw [h.concept?, h.componentConcept?]
  rcases h.objects k with hsame | ⟨-, id, owner, c, b, hm, hn⟩
  · rw [hsame]
  · rw [hm, hn]

theorem enclosingView? : enclosingView? n = enclosingView? m := by
  funext k
  unfold ModelLabels.enclosingView?
  rw [h.referencingViews]
  rcases h.objects k with hsame | ⟨-, id, owner, c, b, hm, hn⟩
  · rw [hsame]
  · rw [hm, hn]
    rfl

theorem topLevelFolder? : n.topLevelFolder? = m.topLevelFolder? := by
  unfold Model.topLevelFolder?
  rw [h.sameStructure.topLevel]

theorem stepAlong? : stepAlong? n = stepAlong? m := by
  unfold ModelLabels.stepAlong? enclosingFolder? container? conceptFolder? viewFolder?
  rw [h.endpoint?, h.diagramObject?, h.underlyingConcept?, h.concept?, h.view?, h.owner?,
    h.topLevelFolder?, h.enclosingView?]

theorem relatedEnd? : relatedEnd? n = relatedEnd? m := by
  unfold ModelLabels.relatedEnd?
  rw [h.underlyingConcept?, h.relationshipsOf, h.concept?]

theorem navigate : navigate n = navigate m := by
  unfold ModelLabels.navigate
  rw [h.stepAlong?, h.relatedEnd?]

/-! ## Labels -/

theorem subject? : Subject.of? n = Subject.of? m := by
  have hbody : Subject.ofBody? n = Subject.ofBody? m := by
    unfold Subject.ofBody?
    rw [h.concept?, h.view?]
  funext target
  cases target with
  | model => exact congrArg some (congrArg (Subject.described "Model") (congrArg toDescription h.rest :))
  | object k =>
    unfold Subject.of?
    rw [hbody]
    exact h.read_get? (f := fun o? => o?.bind fun o => Subject.ofBody? m o.body)
      (fun _ _ _ _ => rfl) k

theorem ownId? : ownId? n = ownId? m := by
  funext target
  cases target with
  | model => exact congrArg some (congrArg Model.id h.rest :)
  | object k => exact h.read_get? (f := fun o? => o?.map (·.id)) (fun _ _ _ _ => rfl) k

theorem renderAttribute : renderAttribute n = renderAttribute m := by
  unfold ModelLabels.renderAttribute attributeText?
  rw [h.subject?, h.ownId?]

theorem renderTemplate : renderTemplate n = renderTemplate m := by
  have hsegment : renderSegment n = renderSegment m := by
    unfold renderSegment renderDirective
    rw [h.navigate, h.renderAttribute]
  have hroot : n.hasTarget = m.hasTarget := by
    unfold hasTarget
    rw [h.contains]
  funext root t
  have hsegments : renderSegments n root t.segments = renderSegments m root t.segments := by
    induction t.segments with
    | nil => rfl
    | cons s segments ih => rw [renderSegments, renderSegments, hsegment, ih]
  unfold ModelLabels.renderTemplate
  rw [hroot, hsegments]

theorem render : Renderer.render n = Renderer.render m := by
  unfold Renderer.render
  rw [h.renderTemplate]

theorem renderId : Renderer.renderId n = Renderer.renderId m := by
  unfold Renderer.renderId
  rw [h.keyOf?, h.render]

end SameButAttachment

/-! ## The property -/

/-- Nothing that labels, walks and look-ups show of a model is different in another state, whatever
renderer or index is used.  What may be different is which of some connections are attached, and so
which of them are listed at their ends, and where. -/
structure AttachmentUnseen (ks : List Key) (m n : Model) : Prop where
  label : ∀ root text, Renderer.render n root text = Renderer.render m root text
  labelOf : ∀ id text, Renderer.renderId n id text = Renderer.renderId m id text
  template : ∀ root t, renderTemplate n root t = renderTemplate m root t
  walk : n.walk = m.walk
  children : ∀ k, n.children k = m.children k
  viewConnections : ∀ k, n.viewConnections k = m.viewConnections k
  keyOf : ∀ id, GraphIndex.keyOf? n id = GraphIndex.keyOf? m id
  relationshipsOf : ∀ k, GraphIndex.relationshipsOf n k = GraphIndex.relationshipsOf m k
  referencingViews : ∀ k, GraphIndex.referencingViews n k = GraphIndex.referencingViews m k
  identifiers : GraphIndex.size n = GraphIndex.size m
  size : n.size = m.size
  version : n.version = m.version
  attachment : m.SameButAttachment ks n
  sources : ∀ x, (n.sourceConnections x).filter (· ∉ ks) = (m.sourceConnections x).filter (· ∉ ks) ∧
    ((∀ k ∈ ks, ∀ c, m.connection? k = some c → c.source ≠ x) →
      n.sourceConnections x = m.sourceConnections x)
  targets : ∀ x, (n.targetConnections x).filter (· ∉ ks) = (m.targetConnections x).filter (· ∉ ks) ∧
    ((∀ k ∈ ks, ∀ c, m.connection? k = some c → c.target ≠ x) →
      n.targetConnections x = m.targetConnections x)

theorem SameButAttachment.unseen (h : m.SameButAttachment ks n) (hm : m.LinksExact)
    (hn : n.LinksExact) : m.AttachmentUnseen ks n where
  label root text := congrFun (congrFun h.render root) text
  labelOf id text := congrFun (congrFun h.renderId id) text
  template root t := congrFun (congrFun h.renderTemplate root) t
  walk := h.sameStructure.walk
  children := congrFun h.children
  viewConnections := congrFun h.viewConnections
  keyOf := congrFun h.keyOf?
  relationshipsOf := congrFun h.relationshipsOf
  referencingViews := congrFun h.referencingViews
  identifiers := by rw [GraphIndex.size, GraphIndex.size, h.read]
  size := h.sameStructure.size
  version := congrArg Stamp.version h.stamp
  attachment := h
  sources x := ⟨h.filter_attached .source x, fun hx => h.attached_eq hm hn .source hx⟩
  targets x := ⟨h.filter_attached .target x, fun hx => h.attached_eq hm hn .target hx⟩

/-- Connections of a reachable model are detached and attached, as often as one likes and in whatever
order.  That is never refused, and it shows in no label, no walk and no look-up, but only at the
connections themselves and in the lists of those at their ends. -/
theorem Reachable.attachment_unseen (h : m.Reachable) {ops : List Operation}
    (hks : ∀ k ∈ ks, m.isConnection k = true)
    (hops : ∀ op ∈ ops, ∃ k ∈ ks, op = .disconnect k ∨ op = .reconnect k) :
    (m.applyAll ops).1 = ops.map (fun _ => .ok .done) ∧ m.AttachmentUnseen ks (m.applyAll ops).2 ∧
    ∀ k c, m.connection? k = some c →
      (m.apply (.disconnect k)).2.connection? k = some { c with isConnected := false } ∧
      (m.apply (.reconnect k)).2.connection? k = some { c with isConnected := true } := by
  obtain ⟨hanswers, hreachable, hsame⟩ := h.applyAll_attaching hks hops
  exact ⟨hanswers, hsame.unseen h.sound.links hreachable.sound.links,
    fun _ _ hc => h.sound.connection?_apply hc⟩

/-- A connection that is detached and attached again comes after another one that starts where it
starts, but no label changes. -/
theorem attachment_unseen_reordered :
    let view := (new 1 "Plan").nextKey
    let m₁ := ((new 1 "Plan").apply (.addView "Map")).2
    let group := m₁.nextKey
    let m₂ := (m₁.apply (.addGroup view "Area")).2
    let note := m₂.nextKey
    let m₃ := (m₂.apply (.addNote view "here")).2
    let first := m₃.nextKey
    let m₄ := (m₃.apply (.addConnection note group)).2
    let second := m₄.nextKey
    let m := (m₄.apply (.addConnection note group)).2
    let n := (m.applyAll [.disconnect first, .reconnect first]).2
    m.Reachable ∧ m.isConnection first = true ∧
      m.sourceConnections note = [first, second] ∧ n.sourceConnections note = [second, first] ∧
      m.AttachmentUnseen [first] n ∧ ∀ root text, renderOnce n root text = renderOnce m root text := by
  intro view m₁ group m₂ note m₃ first m₄ second m n
  have hm : m.Reachable :=
    .step (.step (.step (.step (.step (.new 1 "Plan") (.apply _)) (.apply _)) (.apply _)) (.apply _))
      (.apply _)
  have hfirst : m.isConnection first = true := by decide
  have hconnections : ∀ k ∈ [first], m.isConnection k = true := by simpa using hfirst
  have hops : ∀ op ∈ [.disconnect first, .reconnect first],
      ∃ k ∈ [first], op = Operation.disconnect k ∨ op = .reconnect k := by simp
  obtain ⟨-, hunseen, -⟩ := hm.attachment_unseen hconnections hops
  refine ⟨hm, hfirst, by decide, by decide, hunseen, fun root text => ?_⟩
  rw [renderOnce, hunseen.label, renderOnce]

end ModelLabels.Model
