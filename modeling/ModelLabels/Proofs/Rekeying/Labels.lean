import ModelLabels.Proofs.IdentifierIndex
import ModelLabels.Proofs.IndexOrder
import ModelLabels.Proofs.Navigation
import ModelLabels.Proofs.Rekeying.Reading
import ModelLabels.Proofs.Rendering
/-! # Look-ups and labels under other keys

What an index finds in a model, and where a route leads to, is found under other keys as well, and the
labels are the same, since no key shows in them.

* `Rekeyed.relationshipsOf`, `referencingViews`, `keyOf?`: look-ups.
* `Rekeyed.navigate`: routes.
* `Rekeyed.render`, `renderId`: labels.
-/

namespace ModelLabels
set_option autoImplicit false

/-- The label for a root that does not exist is empty. -/
theorem Renderer.render_of_no_target {m : Model} {root : Target} (h : m.hasTarget root = false)
    (text : String) (r : Renderer) : (render m root text r).1 = "" := by
  unfold render
  split
  · rfl
  · show (renderTemplate m root (parsed text r).1 (parsed text r).2.index).1 = ""
    unfold renderTemplate
    rw [h]
    rfl

theorem Subject.ofConcept_mapKeys {σ : Key → Key} (c : Concept) :
    ofConcept (c.mapKeys σ) = ofConcept c := by
  show described (c.kind.mapKeys σ).label c.toDescription = _
  rw [ConceptKind.label_mapKeys]
  rfl

namespace Model

variable {σ : Key → Key} {m n : Model} {ix jx : GraphIndex}

namespace Rekeyed
variable (h : m.Rekeyed σ n)
include h

/-! ## Objects -/

theorem ends? (k : Key) : n.ends? (σ k) = (m.ends? k).map (Prod.map σ σ) := by
  rw [Model.ends?, h.concept?, Option.bind_map, Model.ends?, Option.map_bind]
  exact Option.bind_congr fun c _ => c.kind.ends?_mapKeys

theorem underlyingConcept? (k : Key) :
    n.underlyingConcept? (σ k) = (m.underlyingConcept? k).map σ := by
  unfold Model.underlyingConcept?
  rw [h.get?]
  cases m.get? k with
  | none => rfl
  | some o =>
    obtain ⟨id, owner, body⟩ := o
    cases body with
    | diagramObject d => exact d.shows.concept?_mapKeys
    | _ => rfl

theorem componentConcept? (k : Key) :
    n.componentConcept? (σ k) = (m.componentConcept? k).map σ := by
  unfold Model.componentConcept?
  rw [h.get?]
  cases m.get? k with
  | none => rfl
  | some o =>
    obtain ⟨id, owner, body⟩ := o
    cases body with
    | diagramObject d =>
      obtain ⟨shows, view⟩ := d
      cases shows <;> rfl
    | _ => rfl

theorem endpoint? (k : Key) (e : Endpoint) : n.endpoint? (σ k) e = (m.endpoint? k e).map σ := by
  have hpick (ends : Key × Key) : e.pick (Prod.map σ σ ends) = σ (e.pick ends) := by
    cases e <;> rfl
  unfold Model.endpoint?
  rw [h.get?]
  cases m.get? k with
  | none => rfl
  | some o =>
    obtain ⟨id, owner, body⟩ := o
    cases body with
    | concept c =>
      show ((c.kind.mapKeys σ).ends?).map e.pick = (c.kind.ends?.map e.pick).map σ
      rw [ConceptKind.ends?_mapKeys, Option.map_map, Option.map_map]
      exact Option.map_congr fun ends _ => hpick ends
    | connection c =>
      obtain ⟨caption, relationship, source, target, isConnected⟩ := c
      cases relationship with
      | none =>
        show n.componentConcept? (e.pick (σ source, σ target)) = _
        rw [← h.componentConcept?, ← hpick]
        rfl
      | some r =>
        show (n.ends? (σ r)).map e.pick = ((m.ends? r).map e.pick).map σ
        rw [h.ends?, Option.map_map, Option.map_map]
        exact Option.map_congr fun ends _ => hpick ends
    | _ => rfl

theorem container? (k : Key) : n.container? (σ k) = (m.container? k).map σ := by
  rw [Model.container?, h.diagramObject?, Option.isSome_map, h.owner?, Model.container?]
  split <;> rfl

theorem conceptFolder? (k : Key) : n.conceptFolder? (σ k) = (m.conceptFolder? k).map σ := by
  rw [Model.conceptFolder?, h.concept?, Option.isSome_map, h.owner?, Model.conceptFolder?]
  split <;> rfl

theorem viewFolder? (k : Key) : n.viewFolder? (σ k) = (m.viewFolder? k).map σ := by
  rw [Model.viewFolder?, h.view?, h.owner?, Model.viewFolder?]
  split <;> rfl

/-! ## Look-ups -/

theorem touches (c k : Key) : n.touches (σ c) (σ k) = m.touches c k := by
  unfold Model.touches
  rw [h.ends?]
  cases m.ends? k with
  | none => rfl
  | some ends => simp only [Option.map_some, Prod.map, h.eq_iff]

theorem depicts (c k : Key) : n.depicts (σ c) (σ k) = m.depicts c k := by
  unfold Model.depicts
  rw [h.get?, Option.any_map]
  refine congrArg (Option.any · _) (funext fun o => decide_eq_decide.2 ?_)
  show (o.body.mapKeys σ).depicted? = some (σ c) ↔ _
  rw [Body.depicted?_mapKeys, ← Option.map_some, (Option.map_injective h.injective).eq_iff]

theorem isShownOn (c v : Key) : n.isShownOn (σ c) (σ v) = m.isShownOn c v := by
  unfold Model.isShownOn
  rw [h.view?, h.keys, List.any_map]
  simp only [Function.comp_def, h.depicts, h.isWithin]

theorem filter_walk {f : Key → Bool} {g : Key → Bool} (hfg : ∀ k, g (σ k) = f k) :
    n.walk.filter g = (m.walk.filter f).map σ := by
  rw [h.walk, List.filter_map]
  exact congrArg (List.map σ) (List.filter_congr fun k _ => hfg k)

section Serves
variable (hix : ix.Serves m) (hjx : jx.Serves n)
include hix hjx

theorem relationshipsOf (c : Key) : (GraphIndex.relationshipsOf n (σ c) jx).1 =
    (GraphIndex.relationshipsOf m c ix).1.map σ := by
  rw [hjx.relationshipsOf_fst, hix.relationshipsOf_fst, Snapshot.relationships_of,
    Snapshot.relationships_of]
  exact h.filter_walk (h.touches c)

variable (hm : m.Sound) (hn : n.Sound)
include hm hn

theorem referencingViews (c : Key) : (GraphIndex.referencingViews n (σ c) jx).1 =
    (GraphIndex.referencingViews m c ix).1.map σ := by
  rw [hjx.referencingViews_fst, hix.referencingViews_fst, hn.views_of, hm.views_of]
  exact h.filter_walk (h.isShownOn c)

theorem keyOf? (id : String) :
    (GraphIndex.keyOf? n id jx).1 = (GraphIndex.keyOf? m id ix).1.map σ := by
  cases hk : (GraphIndex.keyOf? m id ix).1 with
  | some k =>
    obtain ⟨o, ho, hid⟩ := (hm.keyOf?_eq_some_iff hix).1 hk
    exact (hn.keyOf?_eq_some_iff hjx).2 ⟨o.mapKeys σ, by rw [h.get?, ho, Option.map_some], hid⟩
  | none =>
    refine hn.keyOf?_eq_none hjx fun l p hp hid => ?_
    have hl : l ∈ m.objects.keys.map σ := h.keys ▸ Store.mem_keys_of_get? hp
    obtain ⟨k, -, rfl⟩ := List.mem_map.1 hl
    rw [h.get?] at hp
    obtain ⟨o, ho, rfl⟩ := Option.map_eq_some_iff.1 hp
    rw [(hm.keyOf?_eq_some_iff hix).2 ⟨o, ho, hid⟩] at hk
    cases hk

/-! ## Routes -/

theorem enclosingView? (k : Key) :
    (enclosingView? n (σ k) jx).1 = (enclosingView? m k ix).1.map σ := by
  cases ho : m.get? k with
  | none =>
    have ho' : n.get? (σ k) = none := by rw [h.get?, ho, Option.map_none]
    unfold ModelLabels.enclosingView?
    rw [ho, ho']
    rfl
  | some o =>
    have ho' : n.get? (σ k) = some (o.mapKeys σ) := by rw [h.get?, ho, Option.map_some]
    rw [enclosingView?_fst hjx ho', enclosingView?_fst hix ho]
    obtain ⟨id, owner, body⟩ := o
    cases body with
    | concept c =>
      have hviews := h.referencingViews hix hjx hm hn k
      rw [hjx.referencingViews_fst, hix.referencingViews_fst] at hviews
      dsimp only [Object.mapKeys, Body.mapKeys]
      rw [hviews, List.head?_map]
    | _ => rfl

theorem enclosingFolder? (k : Key) :
    (enclosingFolder? n (σ k) jx).1 = (enclosingFolder? m k ix).1.map σ := by
  rw [Sound.enclosingFolder?_fst, Sound.enclosingFolder?_fst, h.enclosingView? hix hjx hm hn]
  cases (ModelLabels.enclosingView? m k ix).1 with
  | some v => exact h.viewFolder? v
  | none =>
    simp only [Option.map_none, h.concept?, Option.isSome_map, h.topLevelFolder?]
    split <;> rfl

omit hm hn in
theorem relatedEnd? (k : Key) (r : Relation) (e : Endpoint) :
    (relatedEnd? n (σ k) r e jx).1 = (relatedEnd? m k r e ix).1.map σ := by
  cases r with
  | unknown keyword => rfl
  | known type =>
    have hconcept := h.underlyingConcept? k
    cases hc : m.underlyingConcept? k with
    | none =>
      rw [hc] at hconcept
      unfold ModelLabels.relatedEnd?
      rw [hc, hconcept]
      rfl
    | some c =>
      rw [hc] at hconcept
      have hrelationships := h.relationshipsOf hix hjx c
      rw [hjx.relationshipsOf_fst, hix.relationshipsOf_fst] at hrelationships
      have hkinds (ks : List Key) : (ks.map σ).filterMap (fun x => (n.concept? x).map (·.kind)) =
          (ks.filterMap fun x => (m.concept? x).map (·.kind)).map (·.mapKeys σ) := by
        rw [List.filterMap_map, List.map_filterMap]
        refine List.filterMap_congr fun x _ => ?_
        rw [Function.comp_apply, h.concept?, Option.map_map, Option.map_map]
        rfl
      rw [Sound.relatedEnd?_fst hjx hconcept, Sound.relatedEnd?_fst hix hc, hrelationships, hkinds,
        List.find?_map, Option.bind_map]
      simp only [Function.comp_def, ConceptKind.relationshipType?_mapKeys,
        ConceptKind.ends?_mapKeys]
      generalize List.find? _ _ = found
      cases found with
      | none => rfl
      | some kind =>
        rw [Option.bind_some, Option.bind_some, Option.map_map, Option.map_map]
        cases e <;> rfl

theorem stepAlong? (k : Key) (w : Keyword) :
    (stepAlong? n (σ k) w jx).1 = (stepAlong? m k w ix).1.map σ := by
  cases w with
  | source => exact h.endpoint? k .source
  | target => exact h.endpoint? k .target
  | parent => exact h.container? k
  | modelFolder =>
    show (n.underlyingConcept? (σ k)).bind n.conceptFolder? =
      ((m.underlyingConcept? k).bind m.conceptFolder?).map σ
    rw [h.underlyingConcept?, Option.bind_map, Option.map_bind]
    exact Option.bind_congr fun c _ => h.conceptFolder? c
  | viewFolder => exact h.enclosingFolder? hix hjx hm hn k
  | view => exact h.enclosingView? hix hjx hm hn k
  | model => rfl

theorem navigate (root : Target) (route : Route) :
    (navigate n (root.mapKeys σ) route jx).1 =
      (navigate m root route ix).1.map (Target.mapKeys σ) := by
  have hafter {f f' : StateM GraphIndex (Option Key)}
      (hf : (f' jx).1 = (f ix).1.map σ) :
      ((f' jx).1.map Target.object) = (((f ix).1.map Target.object).map (Target.mapKeys σ)) := by
    rw [hf, Option.map_map, Option.map_map]
    rfl
  cases route with
  | current => rfl
  | along w =>
    cases root with
    | model => cases w <;> rfl
    | object k =>
      have hstep := h.stepAlong? hix hjx hm hn k w
      cases w with
      | model => rfl
      | _ => exact hafter hstep
  | related r e =>
    cases root with
    | model => rfl
    | object k => exact hafter (h.relatedEnd? hix hjx k r e)

end Serves

/-! ## Attributes -/

theorem toDescription : n.toDescription = m.toDescription :=
  (congrArg Model.toDescription h.rest :)

theorem ofBody? (b : Body) : Subject.ofBody? n (b.mapKeys σ) = Subject.ofBody? m b := by
  cases b with
  | folder f => rfl
  | view v => rfl
  | concept c => exact congrArg some (Subject.ofConcept_mapKeys c)
  | diagramObject d =>
    obtain ⟨shows, view⟩ := d
    cases shows with
    | element concept =>
      show (n.concept? (σ concept)).map _ = (m.concept? concept).map _
      rw [h.concept?, Option.map_map]
      exact Option.map_congr fun c _ => Subject.ofConcept_mapKeys c
    | reference view => exact congrArg (Option.map Subject.ofView) (h.view? view)
    | note content => rfl
    | group caption => rfl
  | connection c =>
    obtain ⟨caption, relationship, source, target, isConnected⟩ := c
    cases relationship with
    | none => rfl
    | some r =>
      have hr := h.concept? r
      unfold Subject.ofBody?
      dsimp only [Body.mapKeys, Connection.mapKeys]
      rw [Option.map_some, Option.bind_some, Option.bind_some, hr]
      cases m.concept? r with
      | none => rfl
      | some c => exact congrArg some (Subject.ofConcept_mapKeys c)

theorem subject? (target : Target) : Subject.of? n (target.mapKeys σ) = Subject.of? m target := by
  cases target with
  | model => exact congrArg (fun d => some (Subject.described "Model" d)) h.toDescription
  | object k =>
    show (n.get? (σ k)).bind _ = (m.get? k).bind _
    rw [h.get?, Option.bind_map]
    exact Option.bind_congr fun o _ => h.ofBody? o.body

theorem ownId? (target : Target) : ownId? n (target.mapKeys σ) = ownId? m target := by
  cases target with
  | model => exact congrArg some (congrArg Model.id h.rest :)
  | object k =>
    show (n.get? (σ k)).map _ = (m.get? k).map _
    rw [h.get?, Option.map_map]
    rfl

theorem renderAttribute (target : Target) (attr : Attribute) :
    renderAttribute n (target.mapKeys σ) attr = renderAttribute m target attr := by
  unfold ModelLabels.renderAttribute attributeText?
  rw [h.subject?, h.ownId?]

theorem hasTarget (target : Target) : n.hasTarget (target.mapKeys σ) = m.hasTarget target := by
  cases target with
  | model => rfl
  | object k => exact h.contains k

/-! ## Labels -/

section Labels
variable (hm : m.Sound) (hn : n.Sound)
include hm hn

theorem value (root : Target) (d : Directive) :
    d.value n (root.mapKeys σ) = d.value m root := by
  unfold Directive.value
  rw [h.navigate .empty .empty hm hn]
  cases (ModelLabels.navigate m root d.route.node .empty).1 with
  | none => rfl
  | some target => exact h.renderAttribute target d.attr.node

variable {r r' : Renderer} (hr : r.Serves m) (hr' : r'.Serves n)
include hr hr'

theorem render (root : Target) (text : String) :
    (Renderer.render n (root.mapKeys σ) text r').1 = (Renderer.render m root text r).1 := by
  have htarget := h.hasTarget root
  cases hroot : m.hasTarget root with
  | true =>
    rw [hr'.render_fst (htarget.trans hroot), hr.render_fst hroot]
    exact congrArg (Segment.filled · _) (funext fun d => h.value hm hn root d)
  | false =>
    rw [Renderer.render_of_no_target (htarget.trans hroot), Renderer.render_of_no_target hroot]

theorem renderId (id text : String) :
    (Renderer.renderId n id text r').1 = (Renderer.renderId m id text r).1 := by
  rw [Renderer.renderId_fst, Renderer.renderId_fst, h.keyOf? hr.index hr'.index hm hn,
    Option.map_map]
  exact Option.map_congr fun k _ =>
    h.render hm hn (hr.keyOf? id) (hr'.keyOf? id) (.object k) text

end Labels

end Rekeyed

end Model

end ModelLabels
