import ModelLabels.Proofs.Removal
/-! # Keys are never used again

A slot that was freed is used again, but with a serial number that was never given out.  So along the
history of a model every key belongs to one object, whose role stays the same, and to no other one once
the object is gone.

* `Model.Follows`: whatever was not there before has a new serial number, and the rest kept its role;
  `Follows.trans`, `Effect.follows`: what single steps and several of them come to.
* `Model.Numbered`: no object has a serial number that is yet to be given out.
* `Model.History`: the states a model went through; `History.numbered`, `History.follows`: what holds of
  each of them, and of any two.
* `History.key_never_reused`: the property.
-/

namespace ModelLabels.Model
set_option autoImplicit false

variable {m n p : Model} {k : Key} {o : Object} {r : Role}

/-! ## One state after another -/

/-- Whatever is there in a later state was there before in the same role, or has a serial number that
was given out since. -/
structure Follows (m n : Model) : Prop where
  lastSerial_le : m.lastSerial ≤ n.lastSerial
  role?_or : ∀ {k r}, n.role? k = some r →
    m.role? k = some r ∨ m.lastSerial < k.serial ∧ k.serial ≤ n.lastSerial

/-- The serial numbers of all objects have been given out. -/
def Numbered (m : Model) : Prop := ∀ k, m.contains k = true → k.serial ≤ m.lastSerial

namespace Follows

theorem refl (m : Model) : m.Follows m := ⟨Nat.le_refl _, .inl⟩

theorem congr (h : m.Follows n) (hobjects : p.objects = n.objects)
    (hserial : p.lastSerial = n.lastSerial) : m.Follows p := by
  obtain ⟨hle, hrole⟩ := h
  unfold Model.role? Model.get? at hrole
  rw [← hserial] at hle hrole
  rw [← hobjects] at hrole
  exact ⟨hle, hrole⟩

theorem trans (h : m.Follows n) (h' : n.Follows p) : m.Follows p where
  lastSerial_le := Nat.le_trans h.lastSerial_le h'.lastSerial_le
  role?_or hr := by
    have hmn := h.lastSerial_le
    have hnp := h'.lastSerial_le
    rcases h'.role?_or hr with hn | ⟨hlow, hhigh⟩
    · exact (h.role?_or hn).imp_right fun ⟨hlow, hhigh⟩ => ⟨hlow, by omega⟩
    · exact .inr ⟨by omega, hhigh⟩

/-- An object changes and keeps its role. -/
theorem updated {f : Object → Object} (ho : m.get? k = some o)
    (hobjects : n.objects = m.objects.update k f) (hrole : (f o).role = o.role)
    (hserial : m.lastSerial ≤ n.lastSerial) : m.Follows n := by
  refine ⟨hserial, fun {l r} hr => .inl ?_⟩
  have hget := get?_of_objects_eq ho hobjects l
  by_cases hl : l = k
  · rw [role?_of_get? (hget.trans (if_pos hl)), hrole] at hr
    rw [hl, role?_of_get? ho, hr]
  · rw [role?, hget, if_neg hl] at hr
    exact hr

/-- One more object gets the next serial number, and the links to it those after that. -/
theorem inserted (m : Model) (owner : Option Key) (b : Body) : m.Follows (m.inserted owner b) := by
  have hserial : m.lastSerial + 1 ≤ (m.inserted owner b).lastSerial := Nat.le_add_right _ _
  refine ⟨by omega, fun {l r} hr => ?_⟩
  by_cases hl : l = m.nextKey
  · have hnew : l.serial = m.lastSerial + 1 := congrArg Key.serial hl
    exact .inr ⟨by omega, by omega⟩
  · have hget : (m.inserted owner b).get? l = m.get? l := Store.get?_insert_of_ne hl _
    rw [role?, hget] at hr
    exact .inl hr

theorem cleared (m : Model) (ks : List Key) : m.Follows (m.cleared ks) := by
  obtain ⟨-, hserial⟩ := m.cleared_counters ks
  refine ⟨Nat.le_of_eq hserial.symm, fun {l r} hr => .inl ?_⟩
  rw [role?, get?_cleared] at hr
  split at hr
  · cases hr
  · exact hr

theorem numbered (h : m.Follows n) (hm : m.Numbered) : n.Numbered := by
  intro k hk
  obtain ⟨o, ho⟩ := contains_iff_get?.1 hk
  rcases h.role?_or (role?_of_get? ho) with hold | ⟨-, hnew⟩
  · exact Nat.le_trans (hm k (contains_of_role? hold)) h.lastSerial_le
  · exact hnew

/-- What is there before and after has kept its role. -/
theorem role?_eq (h : m.Follows n) (hm : m.Numbered) (hk : m.contains k = true)
    (hr : n.role? k = some r) : m.role? k = some r := by
  refine (h.role?_or hr).resolve_right fun ⟨hnew, _⟩ => ?_
  have := hm k hk
  omega

/-- What has gone in between does not come back. -/
theorem not_contains (h : m.Follows n) (h' : n.Follows p) (hm : m.Numbered)
    (hk : m.contains k = true) (hgone : n.contains k = false) : p.contains k = false := by
  rw [Bool.eq_false_iff]
  intro hback
  obtain ⟨o, ho⟩ := contains_iff_get?.1 hback
  have hle := hm k hk
  have hmn := h.lastSerial_le
  rcases h'.role?_or (role?_of_get? ho) with hn | ⟨hnew, -⟩
  · rw [contains_of_role? hn] at hgone
    cases hgone
  · omega

end Follows

theorem Effect.follows {answer : Operation.Answer} (h : m.Effect answer n) : m.Follows n := by
  cases h with
  | described d => exact (Follows.refl m).congr rfl rfl
  | unchanged => exact .refl m
  | @revised k o b ho hb =>
    let f : Object → Object := fun o => { o with body := b }
    exact .updated (f := f) ho rfl (Object.role_congr rfl hb) (Nat.le_refl _)
  | @detached k o c ho _ _ =>
    let f : Object → Object := fun o => { o with body := o.body.withConnected false }
    exact .updated (f := f) ho rfl (o.role_withConnected false) (Nat.le_refl _)
  | @reattached k o c ho _ _ =>
    let f : Object → Object := fun o => { o with body := o.body.withConnected true }
    exact .updated (f := f) ho rfl (o.role_withConnected true) (Nat.le_add_right _ 2)
  | @renamed k o id ho _ _ _ =>
    let f : Object → Object := fun o => { o with id }
    exact .updated (f := f) ho rfl rfl (Nat.le_refl _)
  | @moved k p o ho _ _ hc _ =>
    let f : Object → Object := fun o => { o with owner := some p }
    exact .updated (f := f) ho rfl (Object.role_withOwner hc _) (Nat.le_add_right _ 1)
  | cleared _ _ _ => exact .cleared m _
  | @added p b _ => exact (Follows.inserted m (some p) b).congr rfl rfl

theorem Step.follows (h : m.Step n) : m.Follows n := by
  rcases h.eq_or_effect with rfl | ⟨answer, he⟩
  · exact .refl n
  · exact he.follows

theorem numbered_new (instanceNumber : Nat) (name : String) : (new instanceNumber name).Numbered := by
  have hadd (m : Model) (t : FolderType) : m.Follows (m.addTopLevel t) := by
    rw [addTopLevel_eq]
    exact (Follows.inserted m none _).congr rfl rfl
  have hfold (ts : List FolderType) (m : Model) (h : m.Numbered) :
      (ts.foldl addTopLevel m).Numbered := by
    induction ts generalizing m with
    | nil => exact h
    | cons t ts ih => exact ih _ ((hadd m t).numbered h)
  exact hfold _ _ fun k hk => absurd hk Bool.false_ne_true

/-- The key of an object that was added has a serial number that no object had before. -/
theorem Numbered.added (hm : m.Numbered) {op : Operation} {key : Key}
    (h : m.apply op = (.ok (.added key), n)) :
    n.contains key = true ∧ m.lastSerial < key.serial := by
  cases op.effect_of_run (run_of_apply h) with
  | @added p b _ =>
    have hfresh : m.nextKey ∉ m.objects.keys := fun hmem => by
      have hle : m.lastSerial + 1 ≤ m.lastSerial := hm m.nextKey (Store.contains_iff.2 hmem)
      omega
    have hget : (m.added p b).get? m.nextKey = some ⟨m.freshId.1, some p, b⟩ :=
      Store.get?_insert_self hfresh _
    exact ⟨contains_of_get? hget, Nat.lt_succ_self _⟩

/-! ## Histories -/

/-- The states that a model went through, the latest first.  A copy went through those of the model it
was made of. -/
inductive History : List Model → Prop where
  | new (instanceNumber : Nat) (name : String) : History [new instanceNumber name]
  | copy {m : Model} {past : List Model} (instanceNumber : Nat) (h : History (m :: past)) :
      History (m.copy instanceNumber :: m :: past)
  | step {m n : Model} {past : List Model} (h : History (m :: past)) (hs : m.Step n) :
      History (n :: m :: past)

namespace History
variable {states past : List Model}

theorem numbered (h : History states) : ∀ m ∈ states, m.Numbered := by
  induction h with
  | new instanceNumber name => simpa using numbered_new instanceNumber name
  | copy instanceNumber _ ih =>
    have hm := ih _ List.mem_cons_self
    exact List.forall_mem_cons.2 ⟨((Follows.refl _).congr rfl rfl).numbered hm, ih⟩
  | step _ hs ih =>
    have hm := ih _ List.mem_cons_self
    exact List.forall_mem_cons.2 ⟨hs.follows.numbered hm, ih⟩

theorem follows (h : History states) : states.Pairwise fun later earlier => earlier.Follows later := by
  -- What follows the latest state follows all the others, too.
  have hcons {m n : Model} {past : List Model} (hmn : m.Follows n)
      (hpast : (m :: past).Pairwise fun later earlier => earlier.Follows later) :
      (n :: m :: past).Pairwise fun later earlier => earlier.Follows later := by
    refine List.pairwise_cons.2 ⟨List.forall_mem_cons.2 ⟨hmn, fun p hp => ?_⟩, hpast⟩
    exact ((List.pairwise_cons.1 hpast).1 p hp).trans hmn
  induction h with
  | new instanceNumber name => exact List.pairwise_singleton _ _
  | copy instanceNumber _ ih => exact hcons ((Follows.refl _).congr rfl rfl) ih
  | step _ hs ih => exact hcons hs.follows ih

theorem of_sublist {before after : Model} (h : History states)
    (hsub : [after, before].Sublist states) : before.Follows after ∧ before.Numbered := by
  have hpair := h.follows.sublist hsub
  have hbefore : before ∈ states := hsub.subset (List.mem_cons_of_mem _ List.mem_cons_self)
  exact ⟨(List.pairwise_cons.1 hpair).1 before List.mem_cons_self, h.numbered before hbefore⟩

theorem lastSerial_le (h : History (m :: past)) (hp : p ∈ m :: past) :
    p.lastSerial ≤ m.lastSerial := by
  rcases List.mem_cons.1 hp with rfl | hp
  · exact Nat.le_refl _
  · exact ((List.pairwise_cons.1 h.follows).1 p hp).lastSerial_le

/-- Along the history of a model, the key of an object that is added was never that of another one, a
key does not come back once its object is gone, and as long as an object is there its role stays. -/
theorem key_never_reused (h : History (m :: past)) :
    (∀ op key n, m.apply op = (.ok (.added key), n) →
      n.contains key = true ∧ ∀ p ∈ m :: past, p.contains key = false) ∧
    (∀ k before gone after, [after, gone, before].Sublist (m :: past) →
      before.contains k = true → gone.contains k = false → after.contains k = false) ∧
    ∀ k o o' before after, [after, before].Sublist (m :: past) →
      before.get? k = some o → after.get? k = some o' → o'.role = o.role := by
  refine ⟨fun op key n hadd => ?_, fun k before gone after hsub hk hgone => ?_,
    fun k o o' before after hsub ho ho' => ?_⟩
  · obtain ⟨hnew, hserial⟩ := (h.numbered m List.mem_cons_self).added hadd
    refine ⟨hnew, fun p hp => Bool.eq_false_iff.2 fun hkey => ?_⟩
    have hold : key.serial ≤ p.lastSerial := h.numbered p hp key hkey
    have hlast := h.lastSerial_le hp
    omega
  · obtain ⟨hback, -⟩ := h.of_sublist ((List.sublist_append_left [after, gone] [before]).trans hsub)
    obtain ⟨hleft, hbefore⟩ := h.of_sublist ((List.sublist_cons_self after _).trans hsub)
    exact hleft.not_contains hback hbefore hk hgone
  · obtain ⟨hfollows, hbefore⟩ := h.of_sublist hsub
    have hrole := hfollows.role?_eq hbefore (contains_of_get? ho) (role?_of_get? ho')
    rw [role?_of_get? ho] at hrole
    exact (Option.some.inj hrole).symm

/-- The slot of an object that was removed is used again, in a copy of the model, under another key; the
old key leads nowhere there. -/
theorem key_never_reused_freed_slot :
    let m₀ := Model.new 1 "Plan"
    let old := m₀.nextKey
    let m₁ := (m₀.apply (.addElement .businessActor "Buyer")).2
    let m₂ := (m₁.apply (.remove old)).2
    let m₃ := m₂.copy 2
    let m₄ := (m₃.apply (.addElement .businessRole "Seller")).2
    History [m₄, m₃, m₂, m₁, m₀] ∧ m₃.nextKey.slot = old.slot ∧
      m₄.contains m₃.nextKey = true ∧ m₁.contains m₃.nextKey = false ∧
      m₁.contains old = true ∧ m₂.contains old = false ∧ m₄.contains old = false ∧
      ∃ folder f f', m₀.get? folder = some f ∧ m₄.get? folder = some f' ∧ f'.role = f.role := by
  intro m₀ old m₁ m₂ m₃ m₄
  have hfirst : History [m₁, m₀] := .step (.new 1 "Plan") (.apply _)
  have hcopy : History [m₃, m₂, m₁, m₀] := .copy 2 (.step hfirst (.apply _))
  have hstates : History [m₄, m₃, m₂, m₁, m₀] := .step hcopy (.apply _)
  have hold : m₁.contains old = true := by decide +kernel
  have hm₂ : m₂ = m₁.cleared [old] := by
    have hsound : m₁.Sound := (sound_new 1 "Plan").step (.apply _)
    have hdoomed : m₁.doomed old = [old] := doomed_eq_singleton hold (by decide +kernel)
    show (m₁.apply (.remove old)).2 = _
    rw [apply_remove hsound hold (by decide +kernel), hdoomed]
  have hgone : m₂.contains old = false := by
    rw [hm₂]
    exact congrArg Option.isSome (m₁.get?_cleared [old] old)
  have hadd : m₃.apply (.addElement .businessRole "Seller") = (.ok (.added m₃.nextKey), m₄) := by
    refine Prod.ext ?_ rfl
    show ((m₂.copy 2).apply _).1 = .ok (.added (m₂.copy 2).nextKey)
    rw [hm₂]
    decide +kernel
  have hslot : m₃.nextKey.slot = old.slot := by
    show (m₂.copy 2).nextKey.slot = _
    rw [hm₂]
    decide +kernel
  obtain ⟨f, hf⟩ : ∃ f, m₀.get? ⟨0, 1⟩ = some f := contains_iff_get?.1 (by decide +kernel)
  obtain ⟨f', hf'⟩ : ∃ f', m₄.get? ⟨0, 1⟩ = some f' := by
    refine contains_iff_get?.1 ?_
    show ((m₂.copy 2).apply _).2.contains _ = true
    rw [hm₂]
    decide +kernel
  obtain ⟨hadded, -, -⟩ := hcopy.key_never_reused
  obtain ⟨-, hdead, hrole⟩ := hstates.key_never_reused
  obtain ⟨hnew, hbefore⟩ := hadded _ _ _ hadd
  have hthree : [m₄, m₂, m₁].Sublist [m₄, m₃, m₂, m₁, m₀] :=
    .cons_cons _ (.cons _ (.cons_cons _ (.cons_cons _ (List.nil_sublist _))))
  have htwo : [m₄, m₀].Sublist [m₄, m₃, m₂, m₁, m₀] :=
    .cons_cons _ (.cons _ (.cons _ (.cons _ (List.Sublist.refl _))))
  exact ⟨hstates, hslot, hnew, hbefore m₁ (by simp), hold, hgone,
    hdead old m₁ m₂ m₄ hthree hold hgone, ⟨0, 1⟩, f, f', hf, hf',
    hrole ⟨0, 1⟩ f f' m₀ m₄ htwo hf hf'⟩

end History

end ModelLabels.Model
