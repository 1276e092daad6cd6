import ModelLabels.Proofs.Rekeying.Labels
import ModelLabels.Proofs.Rekeying.Operations
/-! # The order of a removal does not matter

What goes in a removal frees its slots in some order, and the next objects take those slots.  Whatever
the order was, from then on the same operations do the same, and all that is read of the model is the
same but for the slots.

* `Model.Matches`: which keys of two models stand for each other, by their serial numbers.
* `Model.Lockstep`: two models after the same operations.
* `Model.SameButSlots`: models of which the same is read, and with which operations do the same.
* `Reachable.removal_order`: the property.
-/

namespace ModelLabels
set_option autoImplicit false

/-- A key without its slot. -/
def Key.bare (k : Key) : Key := ⟨0, k.serial⟩

/-- What an operation answers or is refused with, but for the slot of the key in it. -/
def bySerial (outcome : Except EditError Operation.Answer) : Except EditError Operation.Answer :=
  mapChecked Key.bare (·.mapKeys Key.bare) outcome

namespace Model
variable {m n p q : Model} {σ τ : Key → Key} {k : Key} {ks ls : List Key}

/-! ## Serial numbers -/

theorem Reachable.numbered (h : m.Reachable) : m.Numbered := by
  induction h with
  | new instanceNumber name => exact numbered_new instanceNumber name
  | copy _ _ ih => exact ((Follows.refl _).congr rfl rfl).numbered ih
  | step _ hs ih => exact hs.follows.numbered ih

theorem Numbered.nodup_serials (h : m.Numbered)
    (hnodup : (m.objects.keys.map (·.serial)).Nodup) :
    ((m.objects.keys ++ [m.nextKey]).map (·.serial)).Nodup := by
  rw [List.map_append, List.map_singleton, List.nodup_append']
  refine ⟨hnodup, List.nodup_singleton _, fun serial hold hnew => ?_⟩
  obtain ⟨k, hk, rfl⟩ := List.mem_map.1 hold
  have hle : k.serial ≤ m.lastSerial := h k (Store.contains_iff.2 hk)
  have heq : k.serial = m.lastSerial + 1 := List.mem_singleton.1 hnew
  omega

theorem keys_foldl_erase (ks : List Key) (m : Model) :
    (ks.foldl erase m).objects.keys.Sublist m.objects.keys := by
  induction ks generalizing m with
  | nil => exact List.Sublist.refl _
  | cons k ks ih =>
    refine (ih _).trans ?_
    cases ho : m.get? k with
    | none => rw [erase_of_none ho]
    | some o =>
      rw [erase_of_get? ho, Store.keys_erase]
      exact List.filter_sublist

/-- An operation adds at most one key, which is the next one. -/
theorem Effect.keys {answer : Operation.Answer} (h : m.Effect answer n) :
    n.objects.keys.Sublist m.objects.keys ∨ n.objects.keys = m.objects.keys ++ [m.nextKey] := by
  have hupdate (k : Key) (f : Object → Object) :
      (m.objects.update k f).keys.Sublist m.objects.keys := by
    rw [Store.keys_update]
  cases h with
  | described d => exact .inl (List.Sublist.refl _)
  | unchanged => exact .inl (List.Sublist.refl _)
  | revised _ _ => exact .inl (hupdate _ _)
  | detached _ _ _ => exact .inl (hupdate _ _)
  | reattached _ _ _ => exact .inl (hupdate _ _)
  | renamed _ _ _ _ => exact .inl (hupdate _ _)
  | moved _ _ _ _ _ => exact .inl (hupdate _ _)
  | cleared _ _ _ => exact .inl (keys_foldl_erase _ m)
  | added _ => exact .inr (Store.keys_insert _ _ _)

/-- No two objects have the same serial number. -/
theorem Reachable.nodup_serials (h : m.Reachable) : (m.objects.keys.map (·.serial)).Nodup := by
  induction h with
  | new instanceNumber name =>
    have hfold (ts : List FolderType) (m : Model) (hm : m.Numbered)
        (hnodup : (m.objects.keys.map (·.serial)).Nodup) :
        ((ts.foldl addTopLevel m).objects.keys.map (·.serial)).Nodup := by
      induction ts generalizing m with
      | nil => exact hnodup
      | cons t ts ih =>
        have hadded : (m.addTopLevel t).Numbered := by
          rw [addTopLevel_eq]
          exact ((Follows.inserted m none _).congr rfl rfl).numbered hm
        have hkeys : (m.addTopLevel t).objects.keys = m.objects.keys ++ [m.nextKey] := by
          rw [addTopLevel_eq]
          exact Store.keys_insert _ _ _
        exact ih _ hadded (hkeys ▸ hm.nodup_serials hnodup)
    exact hfold _ _ (fun k hk => absurd hk Bool.false_ne_true) List.nodup_nil
  | copy _ _ ih => exact ih
  | step h hs ih =>
    rcases hs.eq_or_effect with rfl | ⟨answer, he⟩
    · exact ih
    · rcases he.keys with hsub | hkeys
      · exact ih.sublist (hsub.map _)
      · rw [hkeys]
        exact h.numbered.nodup_serials ih

/-! ## Matching keys -/

/-- Which keys of one model stand for which keys of another one: those with the same serial number,
and for a key that is there one that is there. -/
structure Matches (σ : Key → Key) (m n : Model) : Prop where
  injective : Function.Injective σ
  serial : ∀ k, (σ k).serial = k.serial
  contains : ∀ k, m.contains k = true → n.contains (σ k) = true

theorem Rekeyed.matches (h : m.Rekeyed σ n) : m.Matches σ n :=
  ⟨h.injective, h.serial, fun k hk => (h.contains k).trans hk⟩

/-- Models that differ in keys do so in whatever way their keys are matched. -/
theorem Matches.rekeyed (hτ : m.Matches τ n) (h : m.Rekeyed σ n) (hm : m.Sound)
    (hn : (n.objects.keys.map (·.serial)).Nodup) : m.Rekeyed τ n := by
  refine h.congr hm hτ.injective hτ.serial fun k hk => ?_
  have hτk : τ k ∈ n.objects.keys := Store.contains_iff.1 (hτ.contains k hk)
  have hσk : σ k ∈ n.objects.keys := Store.contains_iff.1 ((h.contains k).trans hk)
  exact List.inj_on_of_nodup_map hn hτk hσk ((hτ.serial k).trans (h.serial k).symm)

/-! ## The same operations on both -/

/-- Two models after the same operations, with keys that stand for each other.  The objects that go in
a removal may go in one order in the one model and in another order in the other. -/
inductive Lockstep (m n : Model) : Model → Model → Prop where
  | start : m.Lockstep n m n
  | apply {p q : Model} {σ : Key → Key} (h : m.Lockstep n p q) (hσ : p.Matches σ q)
      (op : Operation) : m.Lockstep n (p.apply op).2 (q.apply (op.mapKeys σ)).2
  | clear {p q : Model} {σ : Key → Key} {k : Key} {o : Object} {ks ls : List Key}
      (h : m.Lockstep n p q) (hσ : p.Matches σ q) (ho : p.get? k = some o)
      (htop : o.isTopLevel = false) (hks : ks.Perm (p.doomed k)) (hls : ls.Perm (q.doomed (σ k))) :
      m.Lockstep n (p.cleared ks) (q.cleared ls)

theorem bySerial_mapChecked (hσ : ∀ k, (σ k).serial = k.serial)
    (outcome : Except EditError Operation.Answer) :
    bySerial (mapChecked σ (·.mapKeys σ) outcome) = bySerial outcome := by
  have hbare (k : Key) : (σ k).bare = k.bare := congrArg (Key.mk 0) (hσ k)
  cases outcome with
  | error e =>
    cases e with
    | unknownKey k => exact congrArg (Except.error ∘ EditError.unknownKey) (hbare k)
    | _ => rfl
  | ok answer =>
    cases answer with
    | added k => exact congrArg (Except.ok ∘ Operation.Answer.added) (hbare k)
    | _ => rfl

theorem Rekeyed.apply (h : m.Rekeyed σ n) (hm : m.Sound) (hnumbered : m.Numbered)
    (op : Operation) :
    (∃ τ, (m.apply op).2.Rekeyed τ (n.apply (op.mapKeys σ)).2) ∧
      bySerial (n.apply (op.mapKeys σ)).1 = bySerial (m.apply op).1 := by
  have halike := op.alike_run h hm hnumbered
  unfold Model.apply
  generalize op.run m = r at halike ⊢
  generalize (op.mapKeys σ).run n = r' at halike ⊢
  cases halike with
  | ok h a => exact ⟨⟨_, h⟩, bySerial_mapChecked h.serial (.ok a)⟩
  | error h e => exact ⟨⟨_, h⟩, bySerial_mapChecked h.serial (.error e)⟩

/-- Two models that are reached and differ in keys. -/
structure Paired (m n : Model) : Prop where
  reachable : m.Reachable
  reachable' : n.Reachable
  rekeyed : ∃ σ, m.Rekeyed σ n

theorem Paired.of_matches (h : m.Paired n) (hσ : m.Matches σ n) : m.Rekeyed σ n :=
  have ⟨_, hrekeyed⟩ := h.rekeyed
  hσ.rekeyed hrekeyed h.reachable.sound h.reachable'.nodup_serials

theorem Lockstep.paired (h : m.Lockstep n p q) (hmn : m.Paired n) : p.Paired q := by
  -- Only that some keys match is carried along, since each operation may match the keys anew.
  induction h with
  | start => exact hmn
  | apply _ hσ op ih =>
    have hrekeyed := ih.of_matches hσ
    exact ⟨.step ih.reachable (.apply _), .step ih.reachable' (.apply _),
      (hrekeyed.apply ih.reachable.sound ih.reachable.numbered op).1⟩
  | @clear p q σ k o ks ls _ hσ ho htop hks hls ih =>
    have hrekeyed := ih.of_matches hσ
    have ho' : q.get? (σ k) = some (o.mapKeys σ) := by rw [hrekeyed.get?, ho, Option.map_some]
    refine ⟨.step ih.reachable (.clear ho htop hks),
      .step ih.reachable' (.clear ho' (o.isTopLevel_mapKeys.trans htop) hls), σ,
      hrekeyed.cleared (hls.trans ?_)⟩
    rw [hrekeyed.doomed]
    exact (hks.map σ).symm

/-! ## The property -/

/-- Whatever is read of one model, objects, neighbours, look-ups, routes or labels, is read of the
other one with the keys that stand for those of the first, and every operation does the same with both.
Indexes and renderers may have been used before. -/
structure SameButSlots (σ : Key → Key) (m n : Model) : Prop where
  serials : n.objects.keys.map (·.serial) = m.objects.keys.map (·.serial)
  objects : ∀ k, n.get? (σ k) = (m.get? k).map (·.mapKeys σ)
  description : n.toDescription = m.toDescription
  version : n.version = m.version
  identifiers : n.id = m.id ∧ n.usedIds = m.usedIds
  walk : n.walk = m.walk.map σ
  children : ∀ k, n.children (σ k) = (m.children k).map σ
  viewConnections : ∀ k, n.viewConnections (σ k) = (m.viewConnections k).map σ
  sourceConnections : ∀ k, n.sourceConnections (σ k) = (m.sourceConnections k).map σ
  targetConnections : ∀ k, n.targetConnections (σ k) = (m.targetConnections k).map σ
  topLevelFolder : ∀ t, n.topLevelFolder? t = (m.topLevelFolder? t).map σ
  keyOf : ∀ ix jx, ix.Serves m → jx.Serves n → ∀ id,
    (GraphIndex.keyOf? n id jx).1 = (GraphIndex.keyOf? m id ix).1.map σ
  relationshipsOf : ∀ ix jx, ix.Serves m → jx.Serves n → ∀ k,
    (GraphIndex.relationshipsOf n (σ k) jx).1 = (GraphIndex.relationshipsOf m k ix).1.map σ
  referencingViews : ∀ ix jx, ix.Serves m → jx.Serves n → ∀ k,
    (GraphIndex.referencingViews n (σ k) jx).1 = (GraphIndex.referencingViews m k ix).1.map σ
  navigate : ∀ ix jx, ix.Serves m → jx.Serves n → ∀ root route,
    (navigate n (root.mapKeys σ) route jx).1 = (navigate m root route ix).1.map (·.mapKeys σ)
  label : ∀ r r', r.Serves m → r'.Serves n → ∀ root text,
    (Renderer.render n (root.mapKeys σ) text r').1 = (Renderer.render m root text r).1
  labelOf : ∀ r r', r.Serves m → r'.Serves n → ∀ id text,
    (Renderer.renderId n id text r').1 = (Renderer.renderId m id text r).1
  outcome : ∀ op, bySerial (n.apply (op.mapKeys σ)).1 = bySerial (m.apply op).1

theorem Paired.sameButSlots (h : m.Paired n) (hσ : m.Matches σ n) : m.SameButSlots σ n :=
  have hrekeyed := h.of_matches hσ
  have hm := h.reachable.sound
  have hn := h.reachable'.sound
  { serials := by
      rw [hrekeyed.keys, List.map_map]
      exact List.map_congr_left fun k _ => hσ.serial k
    objects := hrekeyed.get?
    description := hrekeyed.toDescription
    version := (congrArg Model.version hrekeyed.rest :)
    identifiers := ⟨(congrArg Model.id hrekeyed.rest :), (congrArg Model.usedIds hrekeyed.rest :)⟩
    walk := hrekeyed.walk
    children := hrekeyed.children
    viewConnections := hrekeyed.viewConnections
    sourceConnections := hrekeyed.attached .source
    targetConnections := hrekeyed.attached .target
    topLevelFolder := hrekeyed.topLevelFolder?
    keyOf := fun _ _ hix hjx => hrekeyed.keyOf? hix hjx hm hn
    relationshipsOf := fun _ _ hix hjx => hrekeyed.relationshipsOf hix hjx
    referencingViews := fun _ _ hix hjx => hrekeyed.referencingViews hix hjx hm hn
    navigate := fun _ _ hix hjx => hrekeyed.navigate hix hjx hm hn
    label := fun _ _ hr hr' => hrekeyed.render hm hn hr hr'
    labelOf := fun _ _ hr hr' => hrekeyed.renderId hm hn hr hr'
    outcome := fun op => (hrekeyed.apply hm h.reachable.numbered op).2 }

/-- The objects that go in a removal go in any two orders.  After the same operations on the two models
that are left, the keys of their objects still match by serial number, and however the keys are matched,
the models are the same but for slots. -/
theorem Reachable.removal_order (h : m.Reachable) (hk : m.contains k = true)
    (htop : k ∉ m.topLevelKeys) (hks : ks.Perm (m.doomed k)) (hls : ls.Perm (m.doomed k))
    (hrun : (m.cleared ks).Lockstep (m.cleared ls) p q) :
    (∃ σ, p.Matches σ q) ∧ ∀ σ, p.Matches σ q → p.SameButSlots σ q := by
  obtain ⟨o, ho⟩ := contains_iff_get?.1 hk
  have hnot : o.isTopLevel = false := by
    rw [← Bool.not_eq_true, h.sound.isTopLevel_iff ho]
    exact htop
  have hsame : (m.cleared ks).Rekeyed (fun k => k) (m.cleared ls) := by
    refine (Rekeyed.refl m).cleared ?_
    rw [List.map_id']
    exact hls.trans hks.symm
  have hstart : (m.cleared ks).Paired (m.cleared ls) :=
    ⟨.step h (.clear ho hnot hks), .step h (.clear ho hnot hls), _, hsame⟩
  have hpaired := hrun.paired hstart
  obtain ⟨σ, hrekeyed⟩ := hpaired.rekeyed
  exact ⟨⟨σ, hrekeyed.matches⟩, fun _ => hpaired.sameButSlots⟩

/-- An element goes before a relationship from it to itself or after it.  The next element takes the
slot of the one or of the other, and its label is the same. -/
theorem removal_order_reused_slot :
    let m₀ := Model.new 1 "Plan"
    let buyer := m₀.nextKey
    let m₁ := (m₀.apply (.addElement .businessActor "Buyer")).2
    let relationship := m₁.nextKey
    let m := (m₁.apply (.addRelationship .association buyer buyer)).2
    let p₀ := m.cleared [relationship, buyer]
    let q₀ := m.cleared [buyer, relationship]
    let p := (p₀.apply (.addElement .businessRole "Seller")).2
    let q := (q₀.apply (.addElement .businessRole "Seller")).2
    m.contains buyer = true ∧ buyer ∉ m.topLevelKeys ∧
      m.doomed buyer = [relationship, buyer] ∧ p₀.nextKey.slot ≠ q₀.nextKey.slot ∧
      ∃ σ, p.Matches σ q ∧ p.SameButSlots σ q ∧ σ p₀.nextKey = q₀.nextKey ∧
        ∀ text,
          renderOnce q (.object q₀.nextKey) text = renderOnce p (.object p₀.nextKey) text := by
  intro m₀ buyer m₁ relationship m p₀ q₀ p q
  have hm : m.Reachable := .step (.step (.new 1 "Plan") (.apply _)) (.apply _)
  have hbuyer : m.contains buyer = true := by decide +kernel
  have htop : buyer ∉ m.topLevelKeys := by decide +kernel
  have hdoomed : m.doomed buyer = [relationship, buyer] := by
    have hlive : m.contains relationship = true := by decide +kernel
    have hfirst : m.dependents buyer = [relationship, relationship] := by decide +kernel
    have hsecond : m.dependents relationship = [] := by decide +kernel
    rw [doomed, close, dif_pos ⟨hbuyer, List.not_mem_nil⟩, hfirst]
    show m.close [relationship, relationship] [buyer] = _
    rw [close, dif_pos ⟨hlive, by decide +kernel⟩, hsecond]
    show m.close [relationship] [relationship, buyer] = _
    rw [close, dif_neg (by simp), close]
  have hks : [relationship, buyer].Perm (m.doomed buyer) := .of_eq hdoomed.symm
  have hls : [buyer, relationship].Perm (m.doomed buyer) := (List.Perm.swap _ _ []).trans hks
  -- The keys of the two models that are left are the same, so each may stand for itself.
  have hself : p₀.Matches (fun k => k) q₀ := by
    refine ⟨fun _ _ h => h, fun _ => rfl, fun k hk => ?_⟩
    rw [← hk]
    refine contains_congr ?_
    rw [get?_cleared, get?_cleared]
    simp only [(List.Perm.swap buyer relationship []).mem_iff]
  have hrun : p₀.Lockstep q₀ p q :=
    .apply .start hself (.addElement .businessRole "Seller")
  obtain ⟨⟨σ, hσ⟩, hsame⟩ := hm.removal_order hbuyer htop hks hls hrun
  have hkey : σ p₀.nextKey = q₀.nextKey := by
    have hnodup : (q.objects.keys.map (·.serial)).Nodup := by decide +kernel
    have hp : p.contains p₀.nextKey = true := by decide +kernel
    have hq : q.contains q₀.nextKey = true := by decide +kernel
    have hserial : p₀.nextKey.serial = q₀.nextKey.serial := by decide +kernel
    exact List.inj_on_of_nodup_map hnodup (Store.contains_iff.1 (hσ.contains _ hp))
      (Store.contains_iff.1 hq) ((hσ.serial _).trans hserial)
  refine ⟨hbuyer, htop, hdoomed, by decide +kernel, σ, hσ, hsame σ hσ, hkey, fun text => ?_⟩
  rw [← hkey]
  exact (hsame σ hσ).label _ _ (Renderer.serves_new p .default) (Renderer.serves_new q .default)
    (.object p₀.nextKey) text

end Model

end ModelLabels
