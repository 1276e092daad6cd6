import ModelLabels.Proofs.References
import ModelLabels.Proofs.Rendering
import ModelLabels.Proofs.SnapshotContent
/-! # Identifiers lead to their objects

In every reachable model each object has an identifier of its own, and every index that may be asked
about the model finds an object by its identifier and finds nothing else.  So a label that consists of
an identifier can be rendered for the objects of the model, and only for them.

* `Snapshot.getElem?_foldl_visit`: of the objects with one identifier, a walk enters the last.
* `Model.IdsDistinct`: no two objects have one identifier; `Sound.keyOf?_eq_some_iff`,
  `Sound.size_byId`: what a look-up finds, and how many identifiers there are.
* `Renderer.Serves.renderId_id`, `renderId_eq_none`: labels for identifiers.
* `Reachable.identifiers_exact`: the property.
-/

namespace ModelLabels
set_option autoImplicit false

/-! ## Identifiers on a walk -/

namespace Snapshot
variable {m : Model} {s : Snapshot} {k : Key} {id : String} {ks : List Key}

theorem byId_noteEnds (s : Snapshot) (k : Key) (ends : Option (Key × Key)) :
    (s.noteEnds k ends).byId = s.byId := by
  unfold noteEnds
  split
  · split <;> rfl
  · rfl

theorem byId_noteShown (s : Snapshot) (concept? view? : Option Key) :
    (s.noteShown concept? view?).byId = s.byId := by
  unfold noteShown
  split
  · unfold noteView
    dsimp only
    split <;> rfl
  · rfl

theorem byId_visit_of_idOf? (hk : m.idOf? k = some id) :
    (visit m s k).byId = s.byId.insert id k := by
  obtain ⟨o, ho, rfl⟩ := Option.map_eq_some_iff.1 hk
  unfold visit
  rw [ho]
  dsimp only
  rw [note_eq_noteShown, byId_noteShown, byId_noteEnds]

theorem visit_of_idOf?_eq_none (hk : m.idOf? k = none) : visit m s k = s := by
  unfold visit
  rw [Option.map_eq_none_iff.1 hk]

theorem getElem?_visit (m : Model) (s : Snapshot) (k : Key) (id : String) :
    (visit m s k).byId[id]? = if m.idOf? k = some id then some k else s.byId[id]? := by
  cases hk : m.idOf? k with
  | none => rw [visit_of_idOf?_eq_none hk, if_neg nofun]
  | some id' =>
    rw [byId_visit_of_idOf? hk, Std.HashMap.getElem?_insert]
    simp only [beq_iff_eq, Option.some.injEq]

/-- Of the objects with one identifier, the last on the walk is the one that is found. -/
theorem getElem?_foldl_visit (m : Model) (ks : List Key) (s : Snapshot) (id : String) :
    (ks.foldl (visit m) s).byId[id]? =
      (ks.reverse.find? fun k => m.idOf? k = some id).or s.byId[id]? := by
  induction ks generalizing s with
  | nil => rfl
  | cons k ks ih =>
    rw [List.foldl_cons, ih, getElem?_visit, List.reverse_cons, List.find?_append, Option.or_assoc]
    congr 1
    by_cases hk : m.idOf? k = some id <;> simp [hk]

/-- A walk enters as many identifiers as there are objects on it, if no two objects share one. -/
theorem size_foldl_visit (hids : m.IdsExact) (hlive : ∀ k ∈ ks, m.contains k = true)
    (hnodup : ks.Nodup) (hfresh : ∀ k ∈ ks, ∀ id, m.idOf? k = some id → id ∉ s.byId) :
    (ks.foldl (visit m) s).byId.size = s.byId.size + ks.length := by
  induction ks generalizing s with
  | nil => rfl
  | cons k ks ih =>
    obtain ⟨hk, hks⟩ := List.nodup_cons.1 hnodup
    obtain ⟨o, ho⟩ := Model.contains_iff_get?.1 (hlive k List.mem_cons_self)
    have hid : m.idOf? k = some o.id := by rw [Model.idOf?, ho, Option.map_some]
    have hnew : o.id ∉ s.byId := hfresh k List.mem_cons_self _ hid
    have hrest : ∀ l ∈ ks, ∀ id, m.idOf? l = some id → id ∉ (visit m s k).byId := by
      intro l hl id hlid hmem
      rw [byId_visit_of_idOf? hid, Std.HashMap.mem_insert] at hmem
      rcases hmem with heq | hmem
      · rw [← eq_of_beq heq] at hlid
        exact hk (hids.injective hlid hid ▸ hl)
      · exact hfresh l (List.mem_cons_of_mem _ hl) id hlid hmem
    rw [List.foldl_cons, ih (fun l hl => hlive l (List.mem_cons_of_mem _ hl)) hks hrest,
      byId_visit_of_idOf? hid, Std.HashMap.size_insert, if_neg hnew, List.length_cons]
    omega

end Snapshot

/-! ## What an index finds -/

namespace GraphIndex
variable {m : Model} {ix : GraphIndex}

theorem Serves.keyOf?_fst (h : ix.Serves m) (id : String) :
    (keyOf? m id ix).1 = if id = "" then none else (Snapshot.of m).byId[id]? := by
  unfold keyOf?
  split
  · rfl
  · exact congrArg (·.byId[id]?) h.read_fst

theorem Serves.size_fst (h : ix.Serves m) : (size m ix).1 = (Snapshot.of m).byId.size :=
  congrArg (·.byId.size) h.read_fst

theorem Steady.keyOf? (m : Model) (id : String) : Steady m (GraphIndex.keyOf? m id) := by
  unfold GraphIndex.keyOf?
  split
  · exact .pure none
  · exact .bind .read fun _ => .pure _

end GraphIndex

namespace Model
variable {m : Model} {k : Key} {o : Object} {id : String} {ix : GraphIndex}

theorem idOf?_eq_some_iff : m.idOf? k = some id ↔ ∃ o, m.get? k = some o ∧ o.id = id :=
  Option.map_eq_some_iff

/-- Each object has an identifier of its own, which is not that of the model and not empty. -/
structure IdsDistinct (m : Model) : Prop where
  ne_empty : ∀ k o, m.get? k = some o → o.id ≠ ""
  ne_model : ∀ k o, m.get? k = some o → o.id ≠ m.id
  injective : ∀ k l o p, m.get? k = some o → m.get? l = some p → o.id = p.id → k = l

theorem IdsExact.distinct (h : m.IdsExact) : m.IdsDistinct where
  ne_empty k o ho hid :=
    h.empty_not_mem ((h.mem_usedIds "").2 (.inr ⟨k, idOf?_eq_some_iff.2 ⟨o, ho, hid⟩⟩))
  ne_model k o ho hid := h.ne_id k (idOf?_eq_some_iff.2 ⟨o, ho, hid⟩)
  injective _ _ o p ho hp hid :=
    h.injective (idOf?_eq_some_iff.2 ⟨o, ho, hid⟩) (idOf?_eq_some_iff.2 ⟨p, hp, rfl⟩)

namespace Sound

theorem getElem?_byId (h : m.Sound) :
    (Snapshot.of m).byId[id]? = some k ↔ m.idOf? k = some id := by
  rw [Snapshot.of, Snapshot.getElem?_foldl_visit, Snapshot.start, Std.HashMap.getElem?_empty,
    Option.or_none]
  have hnamed {l : Key} (hl : (m.walk.reverse.find? fun l => m.idOf? l = some id) = some l) :
      m.idOf? l = some id := by simpa using List.find?_some hl
  constructor
  · exact hnamed
  · intro hk
    obtain ⟨o, ho, -⟩ := idOf?_eq_some_iff.1 hk
    have hmem : k ∈ m.walk.reverse :=
      List.mem_reverse.2 ((h.walkExact.mem_iff k).2 (contains_of_get? ho))
    -- The walk meets the object, and what is found has the same identifier.
    have hsome : (m.walk.reverse.find? fun l => m.idOf? l = some id).isSome = true :=
      List.find?_isSome.2 ⟨k, hmem, decide_eq_true hk⟩
    obtain ⟨l, hl⟩ := Option.isSome_iff_exists.1 hsome
    rw [hl, h.ids.injective (hnamed hl) hk]

/-- There are as many identifiers as there are objects. -/
theorem size_byId (h : m.Sound) : (Snapshot.of m).byId.size = m.size := by
  have hempty : ∀ k ∈ m.walk, ∀ id, m.idOf? k = some id → id ∉ (Snapshot.start m.stamp).byId :=
    fun _ _ _ _ => Std.HashMap.not_mem_empty
  rw [Snapshot.of, Snapshot.size_foldl_visit h.ids (fun k hk => (h.walkExact.mem_iff k).1 hk)
    h.walkExact.nodup hempty, h.walkExact.length_eq, Snapshot.start, Std.HashMap.size_empty,
    Nat.zero_add]

theorem keyOf?_eq_some_iff (h : m.Sound) (hix : ix.Serves m) :
    (GraphIndex.keyOf? m id ix).1 = some k ↔ ∃ o, m.get? k = some o ∧ o.id = id := by
  rw [hix.keyOf?_fst]
  split
  · rename_i hempty
    refine ⟨nofun, fun ⟨o, ho, hid⟩ => ?_⟩
    exact absurd (hid.trans hempty) (h.ids.distinct.ne_empty k o ho)
  · rw [h.getElem?_byId, idOf?_eq_some_iff]

theorem keyOf?_eq_none (h : m.Sound) (hix : ix.Serves m)
    (hid : ∀ k o, m.get? k = some o → o.id ≠ id) : (GraphIndex.keyOf? m id ix).1 = none := by
  rw [Option.eq_none_iff_forall_ne_some]
  intro k hk
  obtain ⟨o, ho, he⟩ := (h.keyOf?_eq_some_iff hix).1 hk
  exact hid k o ho he

end Sound

/-- Every object has a subject, since what it refers to is there. -/
theorem Consistent.exists_subject (h : m.Consistent) (ho : m.get? k = some o) :
    ∃ s, Subject.of? m (.object k) = some s := by
  have hres := h.resolved ho
  rw [Subject.of?, ho, Option.bind_some]
  obtain ⟨id, owner, body⟩ := o
  cases body with
  | diagramObject d =>
    obtain ⟨shows, view⟩ := d
    obtain ⟨-, -, helement, hreference⟩ := hres
    cases shows with
    | element e =>
      obtain ⟨c, hc, -⟩ := helement e rfl
      exact ⟨_, by rw [Subject.ofBody?, hc, Option.map_some]⟩
    | reference v =>
      obtain ⟨f, hf⟩ := Option.isSome_iff_exists.1 (hreference v rfl)
      exact ⟨_, by rw [Subject.ofBody?, hf, Option.map_some]⟩
    | note _ => exact ⟨_, rfl⟩
    | group _ => exact ⟨_, rfl⟩
  | connection c =>
    rw [Subject.ofBody?]
    split <;> exact ⟨_, rfl⟩
  | _ => exact ⟨_, rfl⟩

/-- The identifier that is rendered for an object is its own, whatever the object stands for. -/
theorem Consistent.renderAttribute_id (h : m.Consistent) (ho : m.get? k = some o) :
    renderAttribute m (.object k) .id = o.id := by
  obtain ⟨s, hs⟩ := h.exists_subject ho
  rw [renderAttribute, hs, Option.bind_some, attributeText?, ownId?, ho]
  rfl

end Model

/-! ## Labels for identifiers -/

/-- The text that asks for the identifier of its root. -/
def idTemplate : String := "$\x7bid\x7d"

theorem filled_idTemplate (value : Directive → String) :
    Segment.filled value (Template.ofString idTemplate).segments =
      value ⟨⟨.current, ⟨1, 1⟩⟩, ⟨.id, ⟨2, 4⟩⟩⟩ := by
  have hid : Attribute.Spelling ['i', 'd'] .id := Attribute.ofChars?_eq_some_iff.1 (by decide)
  have hwritten : Directive.Written 0 idTemplate.toList _ := .mk .current hid
  exact Segment.filled_of_written hwritten value

namespace Renderer
variable {m : Model} {r : Renderer} {k : Key} {o : Object} {id : String}

theorem renderId_fst (m : Model) (id text : String) (r : Renderer) :
    (renderId m id text r).1 = (GraphIndex.keyOf? m id r.index).1.map fun k =>
      (render m (.object k) text { r with index := (GraphIndex.keyOf? m id r.index).2 }).1 := by
  have hlooked : withIndex (GraphIndex.keyOf? m id) r = ((GraphIndex.keyOf? m id r.index).1,
      { r with index := (GraphIndex.keyOf? m id r.index).2 }) := rfl
  have hbind {α β : Type} (f : StateM Renderer α) (g : α → StateM Renderer β) :
      (f >>= g) r = g (f r).1 (f r).2 := rfl
  rw [renderId, hbind, hlooked]
  cases (GraphIndex.keyOf? m id r.index).1 <;> rfl

/-- A renderer that looked up an identifier may be used as before. -/
theorem Serves.keyOf? (h : r.Serves m) (id : String) :
    Renderer.Serves m { r with index := (GraphIndex.keyOf? m id r.index).2 } :=
  ⟨(GraphIndex.Steady.keyOf? m id).serves h.index, h.cached⟩

theorem Serves.render_id (hr : r.Serves m) (h : m.Consistent) (ho : m.get? k = some o) :
    (render m (.object k) idTemplate r).1 = o.id := by
  have hvalue : Directive.value m (.object k) ⟨⟨.current, ⟨1, 1⟩⟩, ⟨.id, ⟨2, 4⟩⟩⟩ = o.id :=
    h.renderAttribute_id ho
  have hroot : m.hasTarget (.object k) = true := Model.contains_of_get? ho
  rw [hr.render_fst hroot, filled_idTemplate, hvalue]

theorem Serves.renderId_id (hr : r.Serves m) (h : m.Sound) (ho : m.get? k = some o) :
    (renderId m o.id idTemplate r).1 = some o.id := by
  have hk : (GraphIndex.keyOf? m o.id r.index).1 = some k :=
    (h.keyOf?_eq_some_iff hr.index).2 ⟨o, ho, rfl⟩
  rw [renderId_fst, hk, Option.map_some, (hr.keyOf? o.id).render_id h.toConsistent ho]

theorem Serves.renderId_eq_none (hr : r.Serves m) (h : m.Sound)
    (hid : ∀ k o, m.get? k = some o → o.id ≠ id) (text : String) :
    (renderId m id text r).1 = none := by
  rw [renderId_fst, h.keyOf?_eq_none hr.index hid, Option.map_none]

end Renderer

/-! ## The property -/

namespace Model
variable {m : Model}

/-- In every reachable model each object has an identifier of its own.  Whatever an index or a renderer
was used for before, a look-up finds an object exactly by its identifier, there are as many identifiers
as objects, and an identifier is rendered if it is that of an object. -/
theorem Reachable.identifiers_exact (h : m.Reachable) :
    m.IdsDistinct ∧
    (∀ ix : GraphIndex, ix.Serves m →
      (∀ id k, (GraphIndex.keyOf? m id ix).1 = some k ↔ ∃ o, m.get? k = some o ∧ o.id = id) ∧
      (GraphIndex.size m ix).1 = m.size) ∧
    ∀ r : Renderer, r.Serves m →
      (∀ k o, m.get? k = some o → (Renderer.renderId m o.id idTemplate r).1 = some o.id) ∧
      (∀ id, (∀ k o, m.get? k = some o → o.id ≠ id) →
        (Renderer.renderId m id idTemplate r).1 = none) ∧
      (Renderer.renderId m m.id idTemplate r).1 = none ∧
      (Renderer.renderId m "" idTemplate r).1 = none := by
  have hsound := h.sound
  have hdistinct : m.IdsDistinct := hsound.ids.distinct
  refine ⟨hdistinct, fun ix hix => ⟨fun id k => hsound.keyOf?_eq_some_iff hix, ?_⟩, fun r hr => ?_⟩
  · rw [hix.size_fst, hsound.size_byId]
  · have hnone (id : String) (hid : ∀ k o, m.get? k = some o → o.id ≠ id) :
        (Renderer.renderId m id idTemplate r).1 = none := hr.renderId_eq_none hsound hid idTemplate
    exact ⟨fun k o ho => hr.renderId_id hsound ho, hnone, hnone m.id hdistinct.ne_model,
      hnone "" hdistinct.ne_empty⟩

/-- An object that was given another identifier is found by it. -/
theorem identifiers_exact_renamed :
    let m := ((new 1 "Plan").apply (.addElement .businessActor "Buyer")).2
    let k := (new 1 "Plan").nextKey
    let n := (m.apply (.setId k "buyer")).2
    let ix := (GraphIndex.read n .empty).2
    let r := Renderer.new .default
    n.Reachable ∧ n.IdsDistinct ∧
      ix.Serves n ∧ (GraphIndex.keyOf? n "buyer" ix).1 = some k ∧
      r.Serves n ∧ (Renderer.renderId n "buyer" idTemplate r).1 = some "buyer" := by
  intro m k n ix r
  have hn : n.Reachable := .step (.step (.new 1 "Plan") (.apply _)) (.apply _)
  have hix : ix.Serves n := .read .empty
  have hr : r.Serves n := Renderer.serves_new n .default
  obtain ⟨o, ho, hid⟩ := idOf?_eq_some_iff.1 (by decide +kernel : n.idOf? k = some "buyer")
  obtain ⟨hdistinct, hindex, hrender⟩ := hn.identifiers_exact
  have hlabel := (hrender r hr).1 k o ho
  rw [hid] at hlabel
  exact ⟨hn, hdistinct, hix, ((hindex ix hix).1 "buyer" k).2 ⟨o, ho, hid⟩, hr, hlabel⟩

end Model

end ModelLabels
