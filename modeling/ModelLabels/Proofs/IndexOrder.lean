import ModelLabels.Proofs.Navigation
/-! # Indexed lists are in the order of the walk

The views that show a concept are entered when something on them is met, not when they are met
themselves.  Since all that is drawn on a view follows it on the walk before any other view, they still
come in the order in which the walk lists them, as the relationships of a concept do.

* `Model.isShownOn`: whether something on a view stands for a concept, at any depth below the view.
* `Consistent.within_view_iff`: what lies below a view is what is drawn on it.
* `Snapshot.EntersInOrder`: the views on a stretch of the walk are entered in its order;
  `Visits.entersInOrder`: they are on every stretch that is a walk itself.
* `Reachable.index_in_walk_order`: the property.
-/

namespace ModelLabels
set_option autoImplicit false

namespace Model
variable {m : Model} {k p c v x : Key}

/-! ## Components of a view -/

/-- Whether an object is an element object that shows a concept, or a connection that draws it. -/
def depicts (m : Model) (c k : Key) : Bool := (m.get? k).any fun o => o.body.depicted? = some c

/-- Whether some of what lies below a view stands for a concept. -/
def isShownOn (m : Model) (c v : Key) : Bool :=
  (m.view? v).isSome && m.objects.keys.any fun k => m.depicts c k && m.isWithin k v

theorem depicts_iff : m.depicts c k = true ↔ m.IsComponent k ∧ m.StandsFor k c := by
  unfold depicts StandsFor
  cases ho : m.get? k with
  | none => simp
  | some o =>
    rw [isComponent_iff ho, Option.any_some, decide_eq_true_eq]
    obtain ⟨id, owner, body⟩ := o
    cases body with
    | diagramObject d =>
      obtain ⟨shows, view⟩ := d
      cases shows <;> simp [Body.depicted?, Shown.concept?, Body.diagramObject?]
    | _ => simp [Body.depicted?, Body.diagramObject?, Body.connection?]

namespace Consistent

/-- What is drawn on a view is held by the view or by something that is drawn on it, and whatever is
held by one of these is drawn on the view. -/
theorem drawnOn_iff_of_owner (h : m.Consistent) (hv : m.role? v = some .view)
    (hx : m.owner? x = some p) : m.drawnOn? x = some v ↔ p = v ∨ m.drawnOn? p = some v := by
  obtain ⟨o, ho, hown⟩ := Option.bind_eq_some_iff.1 hx
  have hholds := h.holds ho hown
  rw [drawnOn?_of_role? (role?_of_get? ho)]
  -- A folder is no view and is not drawn on one, and neither is what it holds.
  have hfolder {t r : FolderType} (hp : m.role? p = some (.folder t r)) :
      none = some v ↔ p = v ∨ m.drawnOn? p = some v := by
    rw [drawnOn?_of_role? hp]
    refine ⟨nofun, ?_⟩
    rintro (rfl | hd)
    · rw [hp] at hv
      cases hv
    · cases hd
  have hview (hp : m.role? p = some .view) : m.drawnOn? p = none := drawnOn?_of_role? hp
  cases hr : o.role with
  | folder t r =>
    rw [hr] at hholds
    obtain ⟨t', hp⟩ := hholds
    exact hfolder hp
  | concept kind =>
    rw [hr] at hholds
    obtain ⟨t', hp⟩ := hholds
    exact hfolder hp
  | view =>
    rw [hr] at hholds
    obtain ⟨t', hp⟩ := hholds
    exact hfolder hp
  | diagramObject s u =>
    rw [hr] at hholds
    rw [Role.drawnOn?, Option.some.injEq]
    rcases hholds with ⟨hp, rfl⟩ | ⟨s', hp⟩
    · rw [hview hp]
      simp
    · rw [drawnOn?_of_role? hp, Role.drawnOn?, Option.some.injEq, iff_or_self]
      rintro rfl
      rw [hp] at hv
      cases hv
  | connection _ source _ u =>
    rw [hr] at hholds
    have hu : u = some p := hholds.1
    rw [Role.drawnOn?, hu, Option.some.injEq, hview (hholds.drawn hu h.drawn)]
    simp

theorem drawnOn_owned (h : m.Consistent) (hk : m.drawnOn? k = some v) : ∃ p, m.owner? k = some p := by
  obtain ⟨o, ho, hd⟩ := Option.bind_eq_some_iff.1 hk
  rw [← Object.drawnOn?_role] at hd
  obtain ⟨p, hp, -⟩ := (h.fits ho).exists_owner fun t r hr => by simp [hr, Role.drawnOn?] at hd
  exact ⟨p, (owner?_of_get? ho).trans hp⟩

/-- What lies below a view, at any depth, is what is drawn on it. -/
theorem within_view_iff (h : m.Consistent) (hv : m.role? v = some .view) :
    m.Within x v ↔ x = v ∨ m.drawnOn? x = some v := by
  constructor
  · intro hw
    induction hw using Relation.ReflTransGen.head_induction_on with
    | refl => exact .inl rfl
    | head hown _ ih => exact .inr ((h.drawnOn_iff_of_owner hv hown).2 ih)
  · rintro (rfl | hx)
    · exact .refl
    · obtain ⟨p, hp⟩ := h.drawnOn_owned hx
      obtain ⟨d, hd⟩ := h.rooted x (contains_of_owner? hp)
      induction hd generalizing p with
      | top _ hnone =>
        rw [hnone] at hp
        cases hp
      | owned hown _ ih =>
        refine .head hown ?_
        rcases (h.drawnOn_iff_of_owner hv hown).1 hx with rfl | hdrawn
        · exact .refl
        · obtain ⟨q, hq⟩ := h.drawnOn_owned hdrawn
          exact ih hdrawn q hq

theorem view_of_drawnOn (h : m.Consistent) (hk : m.drawnOn? k = some v) : m.role? v = some .view := by
  obtain ⟨o, ho, hd⟩ := Option.bind_eq_some_iff.1 hk
  exact h.drawn (role?_of_get? ho) ((Object.drawnOn?_role o).trans hd)

/-- Nothing is drawn below an object that is no view and is not drawn itself. -/
theorem drawnOn_eq_none_of_owner (h : m.Consistent) (hx : m.owner? x = some p)
    (hview : m.role? p ≠ some .view) (hp : m.drawnOn? p = none) : m.drawnOn? x = none := by
  rw [Option.eq_none_iff_forall_ne_some]
  intro v hv
  have hrole := h.view_of_drawnOn hv
  rcases (h.drawnOn_iff_of_owner hrole hx).1 hv with rfl | hdrawn
  · exact hview hrole
  · rw [hp] at hdrawn
    cases hdrawn

theorem drawnOn_of_isConnection (h : m.Consistent) (hk : m.isConnection k = true) :
    ∃ v, m.drawnOn? k = some v := by
  obtain ⟨r, hr, hc⟩ := isConnection_iff_role?.1 hk
  obtain ⟨o, ho, rfl⟩ := get?_of_role? hr
  obtain ⟨p, hp, hholds⟩ := (h.fits ho).exists_owner fun t r hf => by simp [hf, Role.isConnection] at hc
  rw [drawnOn?_of_role? hr]
  cases hrole : o.role with
  | connection _ _ _ u => exact ⟨p, (hrole ▸ hholds).1⟩
  | _ => simp [hrole, Role.isConnection] at hc

/-- What stands for a concept on a view is drawn on one. -/
theorem drawnOn_of_depicts (h : m.Consistent) (hk : m.depicts c k = true) :
    ∃ v, m.drawnOn? k = some v := by
  obtain ⟨hcomponent, hc⟩ := depicts_iff.1 hk
  obtain ⟨v, o, ho, -, hv⟩ := h.exists_showsOn hcomponent hc
  exact ⟨v, (drawnOn?_of_get? ho).trans hv⟩

theorem depicts_eq_false (h : m.Consistent) (hk : m.drawnOn? k = none) : m.depicts c k = false := by
  rw [Bool.eq_false_iff]
  intro hd
  obtain ⟨v, hv⟩ := h.drawnOn_of_depicts hd
  rw [hk] at hv
  cases hv

end Consistent

theorem showsOn_iff : m.ShowsOn k c v ↔ m.depicts c k = true ∧ m.drawnOn? k = some v := by
  unfold ShowsOn depicts drawnOn?
  cases m.get? k <;> simp

theorem isShownOn_eq_false (hv : m.role? v ≠ some .view) : m.isShownOn c v = false := by
  rw [isShownOn, Bool.eq_false_iff.2 (mt view?_isSome_iff.1 hv), Bool.false_and]

/-- A concept is shown on a view if a component below the view stands for the concept. -/
theorem Consistent.isShownOn_iff_within (h : m.Consistent) : m.isShownOn c v = true ↔
    (m.view? v).isSome = true ∧ ∃ k, m.IsComponent k ∧ m.StandsFor k c ∧ m.Within k v := by
  unfold isShownOn
  rw [Bool.and_eq_true, List.any_eq_true]
  refine and_congr_right fun _ => exists_congr fun k => ?_
  rw [Bool.and_eq_true, depicts_iff, and_assoc]
  constructor
  · rintro ⟨hk, hcomponent, hc, hwithin⟩
    obtain ⟨d, hd⟩ := h.rooted k (Store.contains_iff.2 hk)
    exact ⟨hcomponent, hc, hd.isWithin_iff.1 hwithin⟩
  · rintro ⟨hcomponent, hc, hwithin⟩
    have ⟨o, ho, _⟩ := hc
    have hk : m.contains k = true := contains_of_get? ho
    obtain ⟨d, hd⟩ := h.rooted k hk
    exact ⟨Store.contains_iff.1 hk, hcomponent, hc, hd.isWithin_iff.2 hwithin⟩

/-- A concept is shown on a view if something that is drawn on the view stands for the concept. -/
theorem Consistent.isShownOn_iff (h : m.Consistent) :
    m.isShownOn c v = true ↔ ∃ k, m.ShowsOn k c v := by
  rw [h.isShownOn_iff_within, view?_isSome_iff]
  simp only [← and_assoc, ← depicts_iff, showsOn_iff]
  constructor
  · rintro ⟨hv, k, hdepicts, hwithin⟩
    refine ⟨k, hdepicts, ((h.within_view_iff hv).1 hwithin).resolve_left ?_⟩
    -- The view itself stands for nothing.
    rintro rfl
    rw [h.depicts_eq_false (drawnOn?_of_role? hv)] at hdepicts
    cases hdepicts
  · rintro ⟨k, hdepicts, hdrawn⟩
    have hv := h.view_of_drawnOn hdrawn
    exact ⟨hv, k, hdepicts, (h.within_view_iff hv).2 (.inr hdrawn)⟩

end Model

/-! ## Views in order -/

namespace Snapshot
variable {m : Model} {c k v : Key} {ks xs ys : List Key}

theorem getD_noteView (s : Snapshot) (concept view c : Key) :
    (s.noteView concept view).views.getD c [] = s.views.getD c [] ++
      if concept = c ∧ view ∉ s.views.getD c [] then [view] else [] := by
  unfold noteView
  dsimp only
  by_cases hc : concept = c
  · subst hc
    by_cases hv : view ∈ s.views.getD concept [] <;> simp [hv]
  · split
    · simp [hc]
    · simp [hc, Std.HashMap.getD_insert]

/-- An object that stands for a concept enters the view it is drawn on, unless that is entered. -/
theorem views_visit (m : Model) (s : Snapshot) (k c : Key) :
    (visit m s k).views.getD c [] = s.views.getD c [] ++
      if m.depicts c k then (m.drawnOn? k).toList.filter (· ∉ s.views.getD c []) else [] := by
  unfold visit Model.depicts Model.drawnOn?
  cases m.get? k with
  | none => simp
  | some o =>
    dsimp only
    rw [note_eq_noteShown, Option.any_some, Option.bind_some]
    cases o.body.depicted? with
    | none => simp [noteShown, views_noteEnds]
    | some concept =>
      cases o.drawnOn? with
      | none => simp [noteShown, views_noteEnds]
      | some view =>
        rw [noteShown, getD_noteView, views_noteEnds]
        by_cases hc : concept = c
        · by_cases hv : view ∈ s.views.getD c [] <;> simp [hc, hv]
        · simp [hc]

/-- Of objects that are drawn on one view, those that stand for a concept enter the view once. -/
theorem views_foldl_of_drawnOn
    (hks : ∀ k ∈ ks, m.depicts c k = true → m.drawnOn? k = some v) (s : Snapshot) :
    (ks.foldl (visit m) s).views.getD c [] = s.views.getD c [] ++
      if v ∉ s.views.getD c [] ∧ ks.any (m.depicts c) = true then [v] else [] := by
  induction ks generalizing s with
  | nil => simp
  | cons k ks ih =>
    rw [List.foldl_cons, ih fun l hl => hks l (List.mem_cons_of_mem _ hl), views_visit, List.any_cons]
    cases hd : m.depicts c k with
    | false => simp
    | true =>
      rw [hks k List.mem_cons_self hd]
      by_cases hv : v ∈ s.views.getD c [] <;> simp [hv]

/-- On a stretch of a walk, the views that show a concept are entered in the order of the stretch. -/
def EntersInOrder (m : Model) (c : Key) (xs : List Key) : Prop :=
  ∀ s : Snapshot, (∀ v ∈ xs, v ∉ s.views.getD c []) →
    (xs.foldl (visit m) s).views.getD c [] = s.views.getD c [] ++ xs.filter (m.isShownOn c)

namespace EntersInOrder

theorem nil : EntersInOrder m c [] := fun _ _ => (List.append_nil _).symm

theorem append (hx : EntersInOrder m c xs) (hy : EntersInOrder m c ys) (hd : xs.Disjoint ys) :
    EntersInOrder m c (xs ++ ys) := by
  intro s hs
  have hxs := hx s fun v hv => hs v (List.mem_append_left _ hv)
  have hys : ∀ v ∈ ys, v ∉ (xs.foldl (visit m) s).views.getD c [] := by
    intro v hv hmem
    rw [hxs, List.mem_append] at hmem
    rcases hmem with hmem | hmem
    · exact hs v (List.mem_append_right _ hv) hmem
    · exact hd (List.mem_filter.1 hmem).1 hv
  rw [List.foldl_append, hy _ hys, hxs, List.filter_append, List.append_assoc]

/-- A view with all that is drawn on it: only the view can be entered. -/
theorem view (hv : m.depicts c v = false)
    (hks : ∀ k ∈ ks, m.depicts c k = true → m.drawnOn? k = some v)
    (hshown : m.isShownOn c v = ks.any (m.depicts c))
    (hrest : ∀ k ∈ ks, m.isShownOn c k = false) : EntersInOrder m c (v :: ks) := by
  intro s hs
  have hnone : ks.filter (m.isShownOn c) = [] :=
    List.filter_eq_nil_iff.2 fun k hk => Bool.eq_false_iff.1 (hrest k hk)
  rw [List.foldl_cons, views_foldl_of_drawnOn hks, views_visit, hv, List.filter_cons, hnone, hshown]
  have hnew : v ∉ s.views.getD c [] := hs v List.mem_cons_self
  simp [hnew]

/-- An object that is no view and is not drawn on one. -/
theorem single (hd : m.depicts c k = false) (hk : m.isShownOn c k = false) :
    EntersInOrder m c [k] := by
  refine view hd nofun ?_ nofun
  rw [hk, List.any_nil]

end EntersInOrder

end Snapshot

namespace Model
variable {m : Model} {k c x : Key} {ks xs below : List Key}

open Snapshot (EntersInOrder)

/-- A view enters in order together with all below it and its connections. -/
theorem Sound.entersInOrder_view (h : m.Sound) (hk : m.role? k = some .view)
    (hbelow : ∀ x, x ∈ below ↔ ∃ y ∈ m.children k, m.Within x y)
    (hnodup : (k :: (below ++ (m.outgoing .contains k).filter m.isConnection)).Nodup) :
    EntersInOrder m c (k :: (below ++ (m.outgoing .contains k).filter m.isConnection)) := by
  obtain ⟨hnot, -⟩ := List.nodup_cons.1 hnodup
  have hmem : ∀ x, m.Within x k ↔
      x = k ∨ x ∈ below ++ (m.outgoing .contains k).filter m.isConnection := by
    intro x
    rw [h.within_iff (contains_of_role? hk), ← hbelow, List.mem_append]
  have hdrawn : ∀ x ∈ below ++ (m.outgoing .contains k).filter m.isConnection,
      m.drawnOn? x = some k := by
    intro x hx
    refine ((h.within_view_iff hk).1 ((hmem x).2 (.inr hx))).resolve_left ?_
    rintro rfl
    exact hnot hx
  refine .view (h.depicts_eq_false (drawnOn?_of_role? hk)) (fun x hx _ => hdrawn x hx) ?_ ?_
  · rw [Bool.eq_iff_iff, h.isShownOn_iff, List.any_eq_true]
    constructor
    · rintro ⟨x, hx⟩
      obtain ⟨hdepicts, hxk⟩ := showsOn_iff.1 hx
      refine ⟨x, ((hmem x).1 ((h.within_view_iff hk).2 (.inr hxk))).resolve_left ?_, hdepicts⟩
      rintro rfl
      rw [drawnOn?_of_role? hk] at hxk
      cases hxk
    · rintro ⟨x, hx, hdepicts⟩
      exact ⟨x, showsOn_iff.2 ⟨hdepicts, hdrawn x hx⟩⟩
  · intro x hx
    refine isShownOn_eq_false fun hview => ?_
    have hx := hdrawn x hx
    rw [drawnOn?_of_role? hview] at hx
    cases hx

/-- Every walk from objects that are not drawn enters the views in order. -/
theorem Visits.entersInOrder (h : m.Sound) (hv : m.Visits ks xs)
    (hroots : ∀ k ∈ ks, m.contains k = true ∧ m.drawnOn? k = none) (hnodup : xs.Nodup) :
    EntersInOrder m c xs := by
  induction hv with
  | nil => exact .nil
  | @cons k ks below after hbelow _ ihbelow ihafter =>
    obtain ⟨hk, hkdrawn⟩ := hroots k List.mem_cons_self
    obtain ⟨hfirst, hafter, hdisjoint⟩ := List.nodup_append'.1 hnodup
    refine .append ?_ (ihafter (fun l hl => hroots l (List.mem_cons_of_mem _ hl)) hafter) hdisjoint
    have hchildren : ∀ y ∈ m.children k, m.owner? y = some k := fun y hy =>
      ((h.links.mem_children hk).1 hy).1
    by_cases hview : m.role? k = some .view
    · refine h.entersInOrder_view hview (fun x => ?_) hfirst
      exact hbelow.mem_iff h.toConsistent fun y hy => contains_of_owner? (hchildren y hy)
    · -- Nothing that the object holds is drawn, so it holds no connections.
      have hundrawn {y : Key} (hy : m.owner? y = some k) : m.drawnOn? y = none :=
        h.drawnOn_eq_none_of_owner hy hview hkdrawn
      have hnone : (m.outgoing .contains k).filter m.isConnection = [] := by
        refine List.filter_eq_nil_iff.2 fun y hy hcon => ?_
        obtain ⟨v, hyv⟩ := h.drawnOn_of_isConnection hcon
        rw [hundrawn ((h.links.mem_outgoing_contains hk).1 hy)] at hyv
        cases hyv
      rw [hnone, List.append_nil] at hfirst ⊢
      obtain ⟨hnot, hnodup_below⟩ := List.nodup_cons.1 hfirst
      have hrest : EntersInOrder m c below := ihbelow
        (fun y hy => ⟨contains_of_owner? (hchildren y hy), hundrawn (hchildren y hy)⟩) hnodup_below
      exact (EntersInOrder.single (h.depicts_eq_false hkdrawn) (isShownOn_eq_false hview)).append
        hrest (List.singleton_disjoint.2 hnot)

namespace Sound

/-- A snapshot holds the views that show a concept, in the order of the walk. -/
theorem views_of (h : m.Sound) (c : Key) :
    (Snapshot.of m).views.getD c [] = m.walk.filter (m.isShownOn c) := by
  have hroots : ∀ k ∈ m.topLevelKeys, m.contains k = true ∧ m.drawnOn? k = none := by
    intro k hk
    obtain ⟨⟨t, k⟩, ht, rfl⟩ := List.mem_map.1 hk
    exact ⟨((h.top.mem_iff k).1 hk).1, drawnOn?_of_role? (h.top.role ht)⟩
  have hstart : (Snapshot.start m.stamp).views.getD c [] = [] := Std.HashMap.getD_empty
  have hwalk := h.walkExact
  have horder := hwalk.ends.entersInOrder (c := c) h hroots hwalk.nodup (Snapshot.start m.stamp)
    (by simp [hstart])
  rw [Snapshot.of, horder, hstart, List.nil_append]

end Sound

/-! ## The property -/

/-- In every reachable model, and with every index that may be asked about it, the relationships of a
concept and the views that show it are those of the walk, in its order, each once. -/
theorem Reachable.index_in_walk_order (h : m.Reachable) {ix : GraphIndex} (hix : ix.Serves m)
    (c : Key) :
    m.walk.Nodup ∧
    (GraphIndex.relationshipsOf m c ix).1 = m.walk.filter (m.touches c) ∧
    (∀ x, x ∈ (GraphIndex.relationshipsOf m c ix).1 ↔ ∃ type, m.Joins x type c) ∧
    (GraphIndex.referencingViews m c ix).1 = m.walk.filter (m.isShownOn c) ∧
    ∀ v, v ∈ (GraphIndex.referencingViews m c ix).1 ↔
      (m.view? v).isSome = true ∧ ∃ x, m.IsComponent x ∧ m.StandsFor x c ∧ m.Within x v := by
  have hsound := h.sound
  rw [hix.relationshipsOf_fst, hix.referencingViews_fst]
  refine ⟨hsound.walkExact.nodup, Snapshot.relationships_of m c, fun x => ?_, hsound.views_of c,
    fun v => ?_⟩
  · rw [hsound.mem_relationships, touches_iff]
  · rw [hsound.mem_views, ← hsound.isShownOn_iff, hsound.isShownOn_iff_within]

/-- A view that was made first is listed first, though the element was shown on the other view before,
and inside a group of this one only later; a relationship from an element to itself is listed once. -/
theorem index_in_walk_order_nested :
    let m₁ := ((new 1 "Plan").apply (.addElement .businessActor "Buyer")).2
    let buyer := (new 1 "Plan").nextKey
    let m₂ := (m₁.apply (.addRelationship .association buyer buyer)).2
    let m₃ := (m₂.apply (.addView "Map")).2
    let m₄ := (m₃.apply (.addView "Plan")).2
    let m₅ := (m₄.apply (.addElementObject m₃.nextKey buyer)).2
    let m₆ := (m₅.apply (.addGroup m₂.nextKey "Front")).2
    let n := (m₆.apply (.addElementObject m₅.nextKey buyer)).2
    let ix := (GraphIndex.read n .empty).2
    n.Reachable ∧ ix.Serves n ∧
      (GraphIndex.relationshipsOf n buyer ix).1 = [m₁.nextKey] ∧
      (GraphIndex.referencingViews n buyer ix).1 = [m₂.nextKey, m₃.nextKey] := by
  intro m₁ buyer m₂ m₃ m₄ m₅ m₆ n ix
  have hn : n.Reachable := .step (.step (.step (.step (.step (.step (.step (.new 1 "Plan")
    (.apply _)) (.apply _)) (.apply _)) (.apply _)) (.apply _)) (.apply _)) (.apply _)
  have hix : ix.Serves n := .read .empty
  obtain ⟨-, hrelationships, -, hviews, -⟩ := hn.index_in_walk_order hix buyer
  refine ⟨hn, hix, hrelationships.trans ?_, hviews.trans ?_⟩
  · decide +kernel
  · decide +kernel

end Model

end ModelLabels
