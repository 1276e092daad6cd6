import ModelLabels.Proofs.Integrity.Preservation
/-! # Containment is a forest

In every reachable model the links from owners to what they own agree with the owners that objects
name, and lead from the nine top-level folders to every object in one way.  So a walk along them ends
and lists every object once, owners first.

* `Model.Visits`: a walk without a bound on its depth; `visits_walk`: the bounded walk is one.
* `Visits.mem_iff`, `Visits.nodup`, `Visits.owner_before`: what a walk lists, and in which order.
* `Model.ContainmentForest`, `Model.WalkExact`: the property; `Reachable.forest_and_walk`.
-/

namespace ModelLabels.Model
set_option autoImplicit false

variable {m : Model} {k p x : Key} {ks xs : List Key}

/-! ## Walks -/

/-- A walk from some objects, one after the other, ends and lists: each object, all that is met below
it, and then the connections it owns. -/
inductive Visits (m : Model) : List Key → List Key → Prop where
  | nil : Visits m [] []
  | cons {k : Key} {ks below after : List Key} (hbelow : Visits m (m.children k) below)
      (hafter : Visits m ks after) :
      Visits m (k :: ks)
        (k :: (below ++ (m.outgoing .contains k).filter m.isConnection) ++ after)

theorem LinksExact.mem_children (h : m.LinksExact) (hk : m.contains k = true) :
    x ∈ m.children k ↔ m.owner? x = some k ∧ m.isConnection x = false := by
  rw [children, List.mem_filter, h.mem_outgoing_contains hk]
  simp

/-- A walk that may go as deep as there are objects meets no bound. -/
theorem visits_walkFrom (h : m.LinksExact) {bound : Nat} {ks : List Key}
    (hd : ∀ k ∈ ks, ∃ d, m.Depth k d ∧ m.size ≤ d + bound) :
    m.Visits ks (ks.flatMap (m.walkFrom bound)) := by
  induction bound generalizing ks with
  | zero =>
    cases ks with
    | nil => exact .nil
    | cons k ks =>
      obtain ⟨d, hk, hle⟩ := hd k List.mem_cons_self
      have := hk.lt_size
      omega
  | succ bound ih =>
    induction ks with
    | nil => exact .nil
    | cons k ks ihs =>
      obtain ⟨d, hk, hle⟩ := hd k List.mem_cons_self
      have hchildren : ∀ c ∈ m.children k, ∃ e, m.Depth c e ∧ m.size ≤ e + bound := by
        intro c hc
        have hown := ((h.mem_children hk.live).1 hc).1
        exact ⟨d + 1, .owned hown hk, by omega⟩
      exact .cons (ih hchildren) (ihs fun l hl => hd l (List.mem_cons_of_mem _ hl))

/-! ## What a walk lists -/

theorem Consistent.eq_of_within_connection (h : m.Consistent) (hw : m.Within x k)
    (hk : m.isConnection k = true) : x = k := by
  rcases Relation.ReflTransGen.cases_tail hw with rfl | ⟨y, -, hy⟩
  · rfl
  · rw [h.not_isConnection_owner hy] at hk
    cases hk

/-- An object lies below another one if it is the same, lies below one of its children, or is one of
its connections. -/
theorem Consistent.within_iff (h : m.Consistent) (hk : m.contains k = true) :
    m.Within x k ↔ x = k ∨ (∃ c ∈ m.children k, m.Within x c) ∨
      x ∈ (m.outgoing .contains k).filter m.isConnection := by
  constructor
  · intro hw
    rcases Relation.ReflTransGen.cases_tail hw with rfl | ⟨c, hc, hown⟩
    · exact .inl rfl
    · cases hcon : m.isConnection c with
      | false => exact .inr (.inl ⟨c, (h.links.mem_children hk).2 ⟨hown, hcon⟩, hc⟩)
      | true =>
        obtain rfl := h.eq_of_within_connection hc hcon
        have hout := (h.links.mem_outgoing_contains hk).2 hown
        exact .inr (.inr (List.mem_filter.2 ⟨hout, hcon⟩))
  · rintro (rfl | ⟨c, hc, hw⟩ | hx)
    · exact .refl
    · exact hw.tail ((h.links.mem_children hk).1 hc).1
    · exact .single ((h.links.mem_outgoing_contains hk).1 (List.mem_filter.1 hx).1)

theorem Consistent.nodup_subtree (h : m.Consistent) {d : Nat} (hk : m.Depth k d) {below : List Key}
    (hbelow : below.Nodup) (hmem : ∀ y, y ∈ below ↔ ∃ c ∈ m.children k, m.Within y c) :
    (k :: (below ++ (m.outgoing .contains k).filter m.isConnection)).Nodup := by
  have hchildren : ∀ c ∈ m.children k, m.Depth c (d + 1) ∧ m.isConnection c = false := fun c hc =>
    have ⟨hown, hcon⟩ := (h.links.mem_children hk.live).1 hc
    ⟨.owned hown hk, hcon⟩
  have hconnections : ∀ c ∈ (m.outgoing .contains k).filter m.isConnection,
      m.Depth c (d + 1) ∧ m.isConnection c = true := fun c hc =>
    have ⟨hout, hcon⟩ := List.mem_filter.1 hc
    ⟨.owned ((h.links.mem_outgoing_contains hk.live).1 hout) hk, hcon⟩
  -- Whatever else is listed lies deeper than the object.
  have hdeep : ∀ {c}, m.Depth c (d + 1) → ¬ m.Within k c := by
    intro c hc hw
    obtain ⟨e, he, hle⟩ := hk.of_within hw
    have := he.unique hc
    omega
  refine List.nodup_cons.2 ⟨?_, List.nodup_append'.2 ⟨hbelow, ?_, ?_⟩⟩
  · rw [List.mem_append, hmem]
    rintro (⟨c, hc, hw⟩ | hc)
    · exact hdeep (hchildren c hc).1 hw
    · exact hdeep (hconnections k hc).1 .refl
  · exact (h.links.nodup_outgoing _ _).filter _
  · intro y hy hycon
    obtain ⟨c, hc, hw⟩ := (hmem y).1 hy
    obtain ⟨hydepth, hyconnection⟩ := hconnections y hycon
    obtain ⟨hcdepth, hcconnection⟩ := hchildren c hc
    obtain rfl : y = c := hw.eq_of_depth hydepth hcdepth
    rw [hcconnection] at hyconnection
    cases hyconnection

namespace Visits

theorem mem_iff (h : m.Consistent) (hv : m.Visits ks xs) (hlive : ∀ k ∈ ks, m.contains k = true) :
    x ∈ xs ↔ ∃ k ∈ ks, m.Within x k := by
  induction hv with
  | nil => simp
  | @cons k ks below after _ _ ihbelow ihafter =>
    have hk : m.contains k = true := hlive k List.mem_cons_self
    have hchildren : ∀ c ∈ m.children k, m.contains c = true := fun c hc =>
      contains_of_owner? ((h.links.mem_children hk).1 hc).1
    rw [List.mem_append, List.mem_cons, List.mem_append, ihbelow hchildren,
      ihafter fun l hl => hlive l (List.mem_cons_of_mem _ hl), ← h.within_iff hk]
    simp

/-- A walk from objects of one depth lists no object twice. -/
theorem nodup (h : m.Consistent) (hv : m.Visits ks xs) {d : Nat} (hd : ∀ k ∈ ks, m.Depth k d)
    (hks : ks.Nodup) : xs.Nodup := by
  induction hv generalizing d with
  | nil => exact List.nodup_nil
  | @cons k ks below after hbelow hafter ihbelow ihafter =>
    have hk : m.Depth k d := hd k List.mem_cons_self
    have hrest : ∀ l ∈ ks, m.Depth l d := fun l hl => hd l (List.mem_cons_of_mem _ hl)
    obtain ⟨hknot, hks⟩ := List.nodup_cons.1 hks
    have hchildren : ∀ c ∈ m.children k, m.Depth c (d + 1) := fun c hc =>
      .owned ((h.links.mem_children hk.live).1 hc).1 hk
    have hbelow_mem : ∀ y, y ∈ below ↔ ∃ c ∈ m.children k, m.Within y c := fun y =>
      hbelow.mem_iff h fun c hc => (hchildren c hc).live
    have hnodup : below.Nodup := ihbelow hchildren ((h.links.nodup_outgoing _ _).filter _)
    refine List.nodup_append'.2 ⟨h.nodup_subtree hk hnodup hbelow_mem, ihafter hrest hks, ?_⟩
    intro y hy hyafter
    rw [List.mem_cons, List.mem_append, hbelow_mem] at hy
    obtain ⟨l, hl, hw⟩ := (hafter.mem_iff h fun l hl => (hrest l hl).live).1 hyafter
    have hyk : m.Within y k := (h.within_iff hk.live).2 hy
    obtain rfl : k = l := hyk.eq_of_same_depth hw hk (hrest l hl)
    exact hknot hl

/-- A walk lists the owner of an object before the object, unless it starts from the object. -/
theorem owner_before (h : m.LinksExact) (hv : m.Visits ks xs)
    (hlive : ∀ k ∈ ks, m.contains k = true) (hx : x ∈ xs) :
    x ∈ ks ∨ ∃ p, m.owner? x = some p ∧ [p, x].Sublist xs := by
  induction hv with
  | nil => cases hx
  | @cons k ks below after _ _ ihbelow ihafter =>
    have hk : m.contains k = true := hlive k List.mem_cons_self
    have hfirst {ys : List Key} (hys : x ∈ ys) (hsub : ys.Sublist
        (below ++ (m.outgoing .contains k).filter m.isConnection)) : [k, x].Sublist
        (k :: (below ++ (m.outgoing .contains k).filter m.isConnection) ++ after) :=
      (((List.singleton_sublist.2 hys).trans hsub).cons_cons k).trans (List.sublist_append_left _ _)
    rcases List.mem_append.1 hx with hx | hx
    · rcases List.mem_cons.1 hx with rfl | hx
      · exact .inl List.mem_cons_self
      rcases List.mem_append.1 hx with hx | hx
      · have hchildren : ∀ c ∈ m.children k, m.contains c = true := fun c hc =>
          contains_of_owner? ((h.mem_children hk).1 hc).1
        rcases ihbelow hchildren hx with hc | ⟨p, hp, hsub⟩
        · exact .inr ⟨k, ((h.mem_children hk).1 hc).1, hfirst hx (List.sublist_append_left _ _)⟩
        · refine .inr ⟨p, hp, ?_⟩
          exact (hsub.trans (List.sublist_append_left _ _)).trans
            ((List.sublist_cons_self _ _).trans (List.sublist_append_left _ _))
      · have hown := (h.mem_outgoing_contains hk).1 (List.mem_filter.1 hx).1
        exact .inr ⟨k, hown, hfirst hx (List.sublist_append_right _ _)⟩
    · rcases ihafter (fun l hl => hlive l (List.mem_cons_of_mem _ hl)) hx with hx | ⟨p, hp, hsub⟩
      · exact .inl (List.mem_cons_of_mem _ hx)
      · exact .inr ⟨p, hp, hsub.trans (List.sublist_append_right _ _)⟩

end Visits

/-! ## The property -/

/-- The one link that leads to an object from an owner is from the owner that the object names; the
nine top-level folders have no owner, and no object contains itself, directly or not. -/
structure ContainmentForest (m : Model) : Prop where
  types : m.topLevel.map (·.1) = FolderType.topLevel
  roots_nodup : m.topLevelKeys.Nodup
  roots : ∀ k ∈ m.topLevelKeys,
    m.contains k = true ∧ m.owner? k = none ∧ m.incoming .contains k = []
  owned : ∀ k, m.contains k = true → k ∉ m.topLevelKeys →
    ∃ p, m.owner? k = some p ∧ m.contains p = true ∧ m.incoming .contains k = [p]
  acyclic : ∀ k, ¬ Relation.TransGen (fun p c => c ∈ m.outgoing .contains p) k k

/-- A walk ends, lists every object once and no others, and lists owners before what they own. -/
structure WalkExact (m : Model) : Prop where
  ends : m.Visits m.topLevelKeys m.walk
  nodup : m.walk.Nodup
  mem_iff : ∀ k, k ∈ m.walk ↔ m.contains k = true
  length_eq : m.walk.length = m.size
  owner_before : ∀ k p, m.owner? k = some p → [p, k].Sublist m.walk

theorem contains_of_mem_outgoing {kind : LinkKind} (h : x ∈ m.outgoing kind k) :
    m.contains k = true := by
  unfold outgoing at h
  split at h
  · assumption
  · cases h

theorem Sound.depth_zero (h : m.Sound) (hk : k ∈ m.topLevelKeys) : m.Depth k 0 :=
  have ⟨hlive, hown⟩ := (h.top.mem_iff k).1 hk
  .top hlive hown

theorem Sound.exists_top (h : m.Sound) {d : Nat} (hd : m.Depth k d) :
    ∃ t ∈ m.topLevelKeys, m.Within k t := by
  induction hd with
  | top hk hown => exact ⟨_, (h.top.mem_iff _).2 ⟨hk, hown⟩, .refl⟩
  | owned hown _ ih =>
    obtain ⟨t, ht, hw⟩ := ih
    exact ⟨t, ht, .head hown hw⟩

theorem Sound.walkExact (h : m.Sound) : m.WalkExact := by
  have hlive : ∀ k ∈ m.topLevelKeys, m.contains k = true := fun k hk => (h.depth_zero hk).live
  have hends : m.Visits m.topLevelKeys m.walk :=
    visits_walkFrom h.links fun k hk => ⟨0, h.depth_zero hk, by omega⟩
  have hnodup : m.walk.Nodup :=
    hends.nodup h.toConsistent (fun k hk => h.depth_zero hk) h.top.nodup
  have hmem : ∀ k, k ∈ m.walk ↔ m.contains k = true := by
    intro k
    rw [hends.mem_iff h.toConsistent hlive]
    constructor
    · rintro ⟨t, ht, hw⟩
      rcases Relation.ReflTransGen.cases_head hw with rfl | ⟨p, hown, -⟩
      · exact hlive k ht
      · exact contains_of_owner? hown
    · intro hk
      obtain ⟨d, hd⟩ := h.rooted k hk
      exact h.exists_top hd
  have hperm : m.walk.Perm m.objects.keys :=
    (List.perm_ext_iff_of_nodup hnodup h.slots.keys_nodup).2 fun k =>
      (hmem k).trans Store.contains_iff
  refine ⟨hends, hnodup, hmem, hperm.length_eq.trans (List.length_map _), fun k p hown => ?_⟩
  have hk : k ∈ m.walk := (hmem k).2 (contains_of_owner? hown)
  rcases hends.owner_before h.links hlive hk with htop | ⟨q, hq, hsub⟩
  · rw [((h.top.mem_iff k).1 htop).2] at hown
    cases hown
  · rw [hown] at hq
    cases hq
    exact hsub

theorem Sound.containmentForest (h : m.Sound) (ht : m.topLevel.map (·.1) = FolderType.topLevel) :
    m.ContainmentForest := by
  refine ⟨ht, h.top.nodup, fun k hk => ?_, fun k hk hnot => ?_, fun k hcycle => ?_⟩
  · obtain ⟨hlive, hown⟩ := (h.top.mem_iff k).1 hk
    refine ⟨hlive, hown, ?_⟩
    rw [h.links.incoming_contains hlive, hown]
    rfl
  · cases hown : m.owner? k with
    | none => exact absurd ((h.top.mem_iff k).2 ⟨hk, hown⟩) hnot
    | some p =>
      refine ⟨p, rfl, h.contains_owner hown, ?_⟩
      rw [h.links.incoming_contains hk, hown]
      rfl
  · have hr : ∀ x y, y ∈ m.outgoing .contains x → m.owner? y = some x := fun x y hy =>
      (h.links.mem_outgoing_contains (contains_of_mem_outgoing hy)).1 hy
    obtain ⟨c, hc, -⟩ := Relation.TransGen.head'_iff.1 hcycle
    obtain ⟨d, hd⟩ := h.rooted k (contains_of_mem_outgoing hc)
    exact hd.not_transGen_self hr hcycle

/-- In every reachable model containment is a forest, and a walk lists it owners first. -/
theorem Reachable.forest_and_walk (h : m.Reachable) : m.ContainmentForest ∧ m.WalkExact :=
  ⟨h.sound.containmentForest h.topLevel_types, h.sound.walkExact⟩

/-- A folder that was added and moved is still walked through once. -/
theorem forest_and_walk_moved :
    let a := (new 1 "Plan").nextKey
    let m := ((new 1 "Plan").apply (.addFolder ⟨1, 2⟩ "Actors")).2
    let b := m.nextKey
    let n := ((m.apply (.addFolder ⟨1, 2⟩ "Roles")).2.apply (.moveTo a b)).2
    n.Reachable ∧ n.owner? a = some b ∧ n.ContainmentForest ∧ n.WalkExact := by
  intro a m b n
  have hn : n.Reachable :=
    .step (.step (.step (.new 1 "Plan") (.apply _)) (.apply _)) (.apply _)
  exact ⟨hn, by decide, hn.forest_and_walk⟩

end ModelLabels.Model
