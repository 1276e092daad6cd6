import ModelLabels.Proofs.Integrity.Dependence
import ModelLabels.Proofs.Transition
/-! # The invariant holds in every reachable state

A new model is sound, and every effect leaves a sound model sound.

* `Consistent.cleared`: what stays of a model when a closed set of objects goes.
* `Sound.effect`, `Sound.step`: what one step preserves; `Reachable.sound`: what a run preserves.
-/

namespace ModelLabels.Model
set_option autoImplicit false

variable {m n : Model} {k p : Key} {o : Object}

/-! ## Removal -/

/-- An object that stays when a closed set goes refers to no object that goes. -/
theorem IsClosed.not_mem {s : Set Key} (hs : m.IsClosed s) (hk : k ∉ s) (ho : m.get? k = some o)
    {x : Key} (hx : o.owner = some x ∨ x ∈ o.role.references) : x ∉ s :=
  fun hxs => hk (hs k x hxs ((dependsOn_iff ho).2 hx))

namespace Consistent

/-- What stays when a closed set goes is drawn on a view that stays. -/
theorem drawnOn_not_mem (h : m.Consistent) {s : Set Key} (hs : m.IsClosed s) {d : Nat}
    (hd : m.Depth k d) (hk : k ∉ s) {r : Role} {v : Key} (hr : m.role? k = some r)
    (hv : r.drawnOn? = some v) : v ∉ s := by
  induction hd generalizing r with
  | @top k _ hown =>
    obtain ⟨o, ho, rfl⟩ := get?_of_role? hr
    obtain ⟨p, hp, -⟩ := (h.fits ho).exists_owner fun t r hf => by simp [hf, Role.drawnOn?] at hv
    rw [owner?_of_get? ho, hp] at hown
    cases hown
  | @owned k p d hown _ ih =>
    obtain ⟨o, ho, rfl⟩ := get?_of_role? hr
    rw [owner?_of_get? ho] at hown
    have hps : p ∉ s := hs.not_mem hk ho (.inl hown)
    have hholds := h.holds ho hown
    cases hrole : o.role with
    | folder _ _ => simp [hrole, Role.drawnOn?] at hv
    | concept _ => simp [hrole, Role.drawnOn?] at hv
    | view => simp [hrole, Role.drawnOn?] at hv
    | connection _ _ _ _ =>
      rw [hrole] at hv hholds
      obtain ⟨rfl, -⟩ := hholds
      cases hv
      exact hps
    | diagramObject _ _ =>
      rw [hrole] at hv hholds
      cases hv
      rcases hholds with ⟨-, rfl⟩ | ⟨s', hs'⟩
      · exact hps
      · exact ih hps hs' rfl

theorem cleared (h : m.Consistent) {ks : List Key} (hlive : ∀ k ∈ ks, m.contains k = true)
    (hnodup : ks.Nodup) (hclosed : m.IsClosed {x | x ∈ ks}) : (m.cleared ks).Consistent := by
  have hstay {k : Key} (hk : k ∉ ks) : (m.cleared ks).get? k = m.get? k :=
    (m.get?_cleared ks k).trans (if_neg hk)
  have hgone {k : Key} {o : Object} (ho : (m.cleared ks).get? k = some o) :
      k ∉ ks ∧ m.get? k = some o := by
    rw [get?_cleared] at ho
    split at ho
    · cases ho
    · exact ⟨‹_›, ho⟩
  refine ⟨sound_cleared h.slots ks, h.ids.cleared ks, h.links.cleared hlive hnodup ?_,
    h.rooted.cleared ?_, ?_, ?_⟩
  · intro k hk l hl
    cases ho : m.get? k with
    | none =>
      rw [linksOf_of_get?_none ho] at hl
      cases hl
    | some o =>
      rw [linksOf_of_get? ho] at hl
      have horigin := Object.origin_of_mem_links hl
      obtain ⟨kind, tail, head⟩ := l
      by_cases hkind : kind = .contains
      · subst hkind
        obtain ⟨rfl, hown⟩ := Object.mem_links_contains.1 hl
        exact ⟨hclosed.not_mem hk ho (.inl hown), hk⟩
      · obtain ⟨rfl, hend⟩ := (Object.mem_links_of_ne hkind).1 hl
        exact ⟨hk, hclosed.not_mem hk ho (.inr (mem_references_of_end? hend))⟩
  · intro k hk p hown
    obtain ⟨o, ho, hown⟩ := Option.bind_eq_some_iff.1 hown
    exact hclosed.not_mem hk ho (.inl hown)
  · intro k o ho
    obtain ⟨hk, ho⟩ := hgone ho
    refine (h.fits ho).mono fun x hx q hq => ?_
    have hxs : x ∉ ks := hclosed.not_mem hk ho hx
    rw [role?, hstay hxs]
    exact hq
  · intro k r v hr hv
    obtain ⟨o, ho, rfl⟩ := get?_of_role? hr
    obtain ⟨hk, ho⟩ := hgone ho
    obtain ⟨d, hd⟩ := h.rooted k (contains_of_get? ho)
    have hvs : v ∉ ks := h.drawnOn_not_mem hclosed hd hk (role?_of_get? ho) hv
    rw [role?, hstay hvs]
    exact h.drawn (role?_of_get? ho) hv

end Consistent

/-! ## The top-level folders -/

theorem Sound.isTopLevel_iff (h : m.Sound) (ho : m.get? k = some o) :
    o.isTopLevel = true ↔ k ∈ m.topLevelKeys := by
  rw [(h.fits ho).isTopLevel_iff, h.top.mem_iff, owner?_of_get? ho,
    and_iff_right (contains_of_get? ho)]

namespace TopLevelExact

theorem congr (h : m.TopLevelExact) (htop : n.topLevel = m.topLevel)
    (hown : ∀ k, (n.contains k = true ∧ n.owner? k = none) ↔
      (m.contains k = true ∧ m.owner? k = none))
    (hrole : ∀ k ∈ m.topLevelKeys, n.role? k = m.role? k) : n.TopLevelExact where
  mem_iff k := by
    rw [topLevelKeys, htop, hown]
    exact h.mem_iff k
  role hmem := by
    rw [htop] at hmem
    rw [hrole _ (List.mem_map.2 ⟨_, hmem, rfl⟩)]
    exact h.role hmem
  nodup := by
    rw [topLevelKeys, htop]
    exact h.nodup

/-- An object changes and keeps its role; it has an owner now if it had one before. -/
theorem changed (h : m.TopLevelExact) {f : Object → Object} (ho : m.get? k = some o)
    (hobjects : n.objects = m.objects.update k f) (htop : n.topLevel = m.topLevel)
    (hrole : (f o).role = o.role) (hown : (f o).owner = none ↔ o.owner = none) :
    n.TopLevelExact := by
  have hget := get?_of_objects_eq ho hobjects
  refine h.congr htop (fun l => ?_) fun l _ => ?_
  · by_cases hl : l = k
    · subst hl
      have hnew := (hget l).trans (if_pos rfl)
      rw [owner?_of_get? ho, owner?_of_get? hnew, contains_of_get? ho, contains_of_get? hnew, hown]
    · have hsame := (hget l).trans (if_neg hl)
      rw [contains_congr hsame, owner?_congr hsame]
  · by_cases hl : l = k
    · subst hl
      rw [role?_of_get? ho, role?_of_get? ((hget l).trans (if_pos rfl)), hrole]
    · rw [role?, hget, if_neg hl, role?]

theorem inserted (h : m.TopLevelExact) (hs : m.objects.Sound) (p : Key) (b : Body) :
    (m.inserted (some p) b).TopLevelExact := by
  have hget := get?_inserted hs (some p) b
  have hnew : ∀ k ∈ m.topLevelKeys, k ≠ m.nextKey := by
    rintro k hk rfl
    obtain ⟨o, ho⟩ := contains_iff_get?.1 ((h.mem_iff _).1 hk).1
    rw [get?_nextKey hs] at ho
    cases ho
  refine h.congr rfl (fun l => ?_) fun l hl => ?_
  · by_cases hl : l = m.nextKey
    · have hnone : m.contains l = false := by
        rw [hl]
        exact congrArg Option.isSome (get?_nextKey hs)
      rw [owner?_of_get? ((hget l).trans (if_pos hl)), hnone]
      simp
    · have hsame := (hget l).trans (if_neg hl)
      rw [contains_congr hsame, owner?_congr hsame]
  · rw [role?, hget, if_neg (hnew l hl), role?]

theorem cleared (h : m.TopLevelExact) {ks : List Key} (hks : ∀ k ∈ m.topLevelKeys, k ∉ ks) :
    (m.cleared ks).TopLevelExact := by
  have hget := m.get?_cleared ks
  refine h.congr (m.cleared_frame ks).2.2.1 (fun l => ?_) fun l hl => ?_
  · by_cases hl : l ∈ ks
    · have hnone : (m.cleared ks).contains l = false :=
        congrArg Option.isSome ((hget l).trans (if_pos hl))
      have hnot : ¬ (m.contains l = true ∧ m.owner? l = none) := fun hm =>
        hks l ((h.mem_iff l).2 hm) hl
      simp [hnone, hnot]
    · have hsame := (hget l).trans (if_neg hl)
      rw [contains_congr hsame, owner?_congr hsame]
  · rw [role?, hget, if_neg (hks l hl), role?]

end TopLevelExact

/-! ## Steps -/

namespace Sound

theorem updated (h : m.Sound) {f : Object → Object} (ho : m.get? k = some o)
    (hobjects : n.objects = m.objects.update k f) (htop : n.topLevel = m.topLevel)
    (hown : (f o).owner = o.owner) (hrole : (f o).role = o.role) (hids : n.IdsExact)
    (hlinks : n.LinksExact) : n.Sound where
  toConsistent := h.toConsistent.updated ho hobjects hown hrole hids hlinks
  top := h.top.changed ho hobjects htop hrole (by rw [hown])

theorem cleared (h : m.Sound) (hk : k ∉ m.topLevelKeys) {ks : List Key}
    (hks : ks.Perm (m.doomed k)) : (m.cleared ks).Sound where
  toConsistent := by
    refine h.toConsistent.cleared (fun x hx => contains_of_mem_doomed (hks.mem_iff.1 hx))
      (hks.nodup_iff.2 (m.doomed_nodup k)) ?_
    have hset : {x | x ∈ ks} = {x | x ∈ m.doomed k} := Set.ext fun x => hks.mem_iff
    rw [hset]
    exact h.doomed_closed k
  top := h.top.cleared fun x hx hmem => h.not_mem_doomed hk hx (hks.mem_iff.1 hmem)

theorem effect (h : m.Sound) {answer : Operation.Answer} (he : m.Effect answer n) : n.Sound := by
  cases he with
  | described d =>
    exact ⟨h.toConsistent.congr rfl rfl rfl rfl, h.top.congr rfl (fun _ => Iff.rfl) fun _ _ => rfl⟩
  | unchanged => exact h
  | @revised k o b ho hb =>
    let f : Object → Object := fun o => { o with body := b }
    exact h.updated (f := f) ho rfl rfl rfl (Object.role_congr rfl hb)
      (h.ids.updated (f := f) ho rfl rfl rfl rfl)
      (h.links.updated (f := f) ho rfl rfl (Object.links_congr (o := f o) (p := o) rfl hb k))
  | @detached k o c ho hc hcon =>
    let f : Object → Object := fun o => { o with body := o.body.withConnected false }
    exact h.updated (f := f) ho rfl rfl rfl (o.role_withConnected false)
      (h.ids.updated (f := f) ho rfl rfl rfl rfl) (h.links.detached ho hc)
  | @reattached k o c ho hc hcon =>
    let f : Object → Object := fun o => { o with body := o.body.withConnected true }
    exact h.updated (f := f) ho rfl rfl rfl (o.role_withConnected true)
      (h.ids.updated (f := f) ho rfl rfl rfl rfl) (h.links.reattached ho hc hcon)
  | @renamed k o id ho hid hne hused =>
    let f : Object → Object := fun o => { o with id }
    exact h.updated (f := f) ho rfl rfl rfl rfl (h.ids.renamed ho hused hid)
      (h.links.updated (f := f) ho rfl rfl rfl)
  | @moved k p o ho htop hp hc hw =>
    refine ⟨h.toConsistent.moved ho htop hp hc hw, ?_⟩
    have hown : o.owner ≠ none := fun hnone => by
      rw [(h.fits ho).isTopLevel_iff.2 hnone] at htop
      cases htop
    exact h.top.changed (f := fun o => { o with owner := some p }) ho rfl rfl
      (Object.role_withOwner hc _) (by simp [hown])
  | @cleared k o ks ho htop hks =>
    refine h.cleared (fun hk => ?_) hks
    rw [(h.isTopLevel_iff ho).2 hk] at htop
    cases htop
  | @added p b hfit =>
    have hc : (m.inserted (some p) b).Consistent := h.toConsistent.inserted hfit
    exact ⟨hc.congr rfl rfl rfl rfl,
      (h.top.inserted h.slots p b).congr rfl (fun _ => Iff.rfl) fun _ _ => rfl⟩

theorem step (h : m.Sound) (hs : m.Step n) : n.Sound := by
  rcases hs.eq_or_effect with rfl | ⟨answer, he⟩
  · exact h
  · exact h.effect he

end Sound

/-! ## New models -/

theorem sound_blank (instanceNumber : Nat) (name : String) : (blank instanceNumber name).Sound := by
  have hget (k : Key) : (blank instanceNumber name).get? k = none := rfl
  have hlive (k : Key) : (blank instanceNumber name).contains k ≠ true := Bool.false_ne_true
  have hids : (blank instanceNumber name).IdsExact := by
    constructor
    · intro id
      simp only [idOf?, hget]
      show id ∈ [_] ↔ _
      rw [List.mem_singleton]
      exact (or_iff_left (by rintro ⟨_, ⟨⟩⟩)).symm
    · rintro k l id ⟨⟩
    · rintro k ⟨⟩
    · show "" ∉ [idText _]
      simp [(idText_ne_empty _).symm]
  constructor
  · refine ⟨Store.Sound.empty, hids, ⟨fun l => ?_, List.nodup_nil⟩, ?_, ?_, ?_⟩
    · rw [linksOf_of_get?_none (hget _)]
      rfl
    · exact fun k hk => absurd hk (hlive k)
    · rintro k o ⟨⟩
    · rintro k r v ⟨⟩
  · constructor
    · exact fun k => ⟨fun hk => absurd hk List.not_mem_nil, fun hk => absurd hk.1 (hlive k)⟩
    · exact fun hk => absurd hk List.not_mem_nil
    · exact List.nodup_nil

theorem addTopLevel_eq (m : Model) (t : FolderType) : m.addTopLevel t =
    { m.inserted none (.folder ⟨.named t.defaultName, t, t⟩) with
      topLevel := m.topLevel ++ [(t, m.nextKey)] } := by
  have hcreate : m.create none (.folder ⟨.named t.defaultName, t, t⟩) =
      (m.nextKey, m.inserted none (.folder ⟨.named t.defaultName, t, t⟩)) :=
    Prod.ext (m.create_fst none _) (create_eq rfl)
  rw [addTopLevel, hcreate]
  rfl

/-- The folder that is added is the one more object without an owner. -/
theorem Sound.addTopLevel (h : m.Sound) {t : FolderType} (ht : t ≠ .user) :
    (m.addTopLevel t).Sound := by
  have hc : (m.inserted none (.folder ⟨.named t.defaultName, t, t⟩)).Consistent :=
    h.toConsistent.inserted fun id => ⟨trivial, t, rfl, ht⟩
  have hget (l : Key) : (m.addTopLevel t).get? l =
      if l = m.nextKey then some ⟨m.freshId.1, none, .folder ⟨.named t.defaultName, t, t⟩⟩
      else m.get? l := get?_inserted h.slots none _ l
  have hself := (hget m.nextKey).trans (if_pos rfl)
  have hother {l : Key} (hl : l ≠ m.nextKey) : (m.addTopLevel t).get? l = m.get? l :=
    (hget l).trans (if_neg hl)
  have hkeys : (m.addTopLevel t).topLevelKeys = m.topLevelKeys ++ [m.nextKey] :=
    List.map_append
  have hfresh : m.nextKey ∉ m.topLevelKeys := by
    intro hmem
    obtain ⟨o, ho⟩ := contains_iff_get?.1 ((h.top.mem_iff _).1 hmem).1
    rw [get?_nextKey h.slots] at ho
    cases ho
  have heq := m.addTopLevel_eq t
  refine ⟨heq ▸ hc.congr rfl rfl rfl rfl, fun k => ?_, fun {u k} hmem => ?_, ?_⟩
  · rw [hkeys, List.mem_append, List.mem_singleton]
    by_cases hk : k = m.nextKey
    · rw [hk, owner?_of_get? hself, contains_of_get? hself]
      simp
    · rw [contains_congr (hother hk), owner?_congr (hother hk), ← h.top.mem_iff,
        or_iff_left hk]
  · rcases List.mem_append.1 hmem with hmem | hmem
    · have hk : k ≠ m.nextKey := by
        rintro rfl
        exact hfresh (List.mem_map.2 ⟨_, hmem, rfl⟩)
      rw [role?, hother hk]
      exact h.top.role hmem
    · cases List.mem_singleton.1 hmem
      exact role?_of_get? hself
  · rw [hkeys]
    refine List.nodup_append'.2 ⟨h.top.nodup, List.nodup_singleton _, fun k hk hk' => ?_⟩
    rw [List.mem_singleton.1 hk'] at hk
    exact hfresh hk

theorem sound_new (instanceNumber : Nat) (name : String) : (new instanceNumber name).Sound := by
  have hfold (ts : List FolderType) (hts : ∀ t ∈ ts, t ≠ .user) (m : Model) (h : m.Sound) :
      (ts.foldl addTopLevel m).Sound := by
    induction ts generalizing m with
    | nil => exact h
    | cons t ts ih =>
      exact ih (fun u hu => hts u (List.mem_cons_of_mem _ hu)) _
        (h.addTopLevel (hts t List.mem_cons_self))
  exact hfold _ (fun t ht => FolderType.mem_topLevel.1 ht) _ (sound_blank instanceNumber name)

/-! ## Runs -/

theorem Reachable.sound (h : m.Reachable) : m.Sound := by
  induction h with
  | new instanceNumber name => exact sound_new instanceNumber name
  | copy instanceNumber _ ih =>
    exact ⟨ih.toConsistent.congr rfl rfl rfl rfl, ih.top.congr rfl (fun _ => Iff.rfl) fun _ _ => rfl⟩
  | step _ hs ih => exact ih.step hs

theorem Effect.topLevel {answer : Operation.Answer} (h : m.Effect answer n) :
    n.topLevel = m.topLevel := by
  cases h with
  | cleared _ _ _ => exact (m.cleared_frame _).2.2.1
  | _ => rfl

/-- Every reachable model has one top-level folder of each type. -/
theorem Reachable.topLevel_types (h : m.Reachable) : m.topLevel.map (·.1) = FolderType.topLevel := by
  induction h with
  | new instanceNumber name =>
    have hfold (ts : List FolderType) (m : Model) :
        (ts.foldl Model.addTopLevel m).topLevel.map (·.1) = m.topLevel.map (·.1) ++ ts := by
      induction ts generalizing m with
      | nil => simp
      | cons t ts ih => rw [List.foldl_cons, ih, addTopLevel_eq]; simp
    exact hfold _ _
  | copy instanceNumber _ ih => exact ih
  | step _ hs ih =>
    rcases hs.eq_or_effect with rfl | ⟨answer, he⟩
    · exact ih
    · rw [he.topLevel]
      exact ih

end ModelLabels.Model
