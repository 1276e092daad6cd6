import Mathlib.Data.List.Nodup
import Mathlib.Data.List.Perm.Subperm
import Mathlib.Logic.Relation
import ModelLabels.Proofs.Integrity.Slots
import ModelLabels.Proofs.Role
/-! # Owners end at the top

Every object has a depth: the number of its owners up to a top-level folder.  So no object lies below
itself, and the way over the owners of an object is no longer than there are objects.

* `Model.Depth`: the depth of an object; `Depth.unique`, `Depth.lt_size`.
* `Model.Within`: one object is another one or lies below it; `isWithin_iff`.
* `Model.Rooted`: every object has a depth, and what each change does to it.
-/

namespace ModelLabels.Model
set_option autoImplicit false

variable {m n : Model} {k p a : Key} {d e : Nat}

theorem contains_of_owner? (h : m.owner? k = some p) : m.contains k = true := by
  obtain ⟨o, ho, -⟩ := Option.bind_eq_some_iff.1 h
  exact contains_of_get? ho

/-! ## Depth -/

/-- An object lies a number of owners below a top-level folder. -/
inductive Depth (m : Model) : Key → Nat → Prop where
  | top {k : Key} (hk : m.contains k = true) (ho : m.owner? k = none) : Depth m k 0
  | owned {k p : Key} {d : Nat} (ho : m.owner? k = some p) (hp : Depth m p d) : Depth m k (d + 1)

/-- Whether an object is another one or lies below it. -/
def Within (m : Model) : Key → Key → Prop := Relation.ReflTransGen fun x y => m.owner? x = some y

namespace Depth

theorem live (h : m.Depth k d) : m.contains k = true := by
  cases h with
  | top hk _ => exact hk
  | owned ho _ => exact contains_of_owner? ho

theorem unique (h : m.Depth k d) (h' : m.Depth k e) : d = e := by
  induction h generalizing e with
  | top _ ho =>
    cases h' with
    | top _ _ => rfl
    | owned ho' _ => rw [ho] at ho'; cases ho'
  | owned ho _ ih =>
    cases h' with
    | top _ ho' => rw [ho] at ho'; cases ho'
    | owned ho' hp' =>
      rw [ho] at ho'
      cases ho'
      rw [ih hp']

theorem of_within (h : m.Depth k d) (hw : m.Within k a) : ∃ e, m.Depth a e ∧ e ≤ d := by
  induction hw using Relation.ReflTransGen.head_induction_on generalizing d with
  | refl => exact ⟨d, h, Nat.le_refl d⟩
  | head ho _ ih =>
    cases h with
    | top _ ho' => rw [ho] at ho'; cases ho'
    | owned ho' hp =>
      rw [ho] at ho'
      cases ho'
      obtain ⟨e, he, hle⟩ := ih hp
      exact ⟨e, he, by omega⟩

/-- The owners of an object and the object itself are as many keys as its depth says, and one. -/
theorem exists_chain (h : m.Depth k d) :
    ∃ ks : List Key, ks.Nodup ∧ ks.length = d + 1 ∧ ∀ x ∈ ks, ∃ e, m.Depth x e ∧ e ≤ d := by
  induction h with
  | @top k hk ho =>
    refine ⟨[k], by simp, rfl, fun x hx => ?_⟩
    rw [List.mem_singleton.1 hx]
    exact ⟨0, .top hk ho, Nat.le_refl 0⟩
  | @owned k p d ho hp ih =>
    obtain ⟨ks, hnodup, hlen, hks⟩ := ih
    have hk : m.Depth k (d + 1) := .owned ho hp
    have hnot : k ∉ ks := by
      intro hmem
      obtain ⟨e, he, hle⟩ := hks k hmem
      have := hk.unique he
      omega
    refine ⟨k :: ks, List.nodup_cons.2 ⟨hnot, hnodup⟩, by simp [hlen], fun x hx => ?_⟩
    rcases List.mem_cons.1 hx with rfl | hx
    · exact ⟨d + 1, hk, Nat.le_refl _⟩
    · obtain ⟨e, he, hle⟩ := hks x hx
      exact ⟨e, he, by omega⟩

theorem lt_size (h : m.Depth k d) : d < m.size := by
  obtain ⟨ks, hnodup, hlen, hks⟩ := h.exists_chain
  have hsub : ks ⊆ m.objects.keys := fun x hx =>
    have ⟨_, he, _⟩ := hks x hx
    Store.contains_iff.1 he.live
  have hle : ks.length ≤ m.objects.keys.length := (hnodup.subperm hsub).length_le
  have hsize : m.objects.keys.length = m.size := List.length_map _
  omega

end Depth

/-! ## What lies below what -/

theorem Within.total {b x : Key} (ha : m.Within x a) (hb : m.Within x b) :
    m.Within a b ∨ m.Within b a :=
  ha.total_of_right_unique (fun _ _ _ h h' => Option.some.inj (h.symm.trans h')) hb

theorem Within.eq_of_depth (h : m.Within k a) (hk : m.Depth k d) (ha : m.Depth a d) : k = a := by
  rcases Relation.ReflTransGen.cases_head h with rfl | ⟨p, ho, hp⟩
  · rfl
  · cases hk with
    | top _ ho' => rw [ho] at ho'; cases ho'
    | owned ho' hpd =>
      rw [ho] at ho'
      cases ho'
      obtain ⟨e, he, hle⟩ := hpd.of_within hp
      have := he.unique ha
      omega

theorem not_within_of_owner?_none (hk : k ≠ a) (hown : m.owner? k = none) : ¬ m.Within k a := by
  intro hw
  rcases Relation.ReflTransGen.cases_head hw with rfl | ⟨p, hp, -⟩
  · exact hk rfl
  · simp [hown] at hp

theorem within_iff_of_owner? (hk : k ≠ a) (hown : m.owner? k = some p) :
    m.Within k a ↔ m.Within p a := by
  refine ⟨fun hw => ?_, .head hown⟩
  rcases Relation.ReflTransGen.cases_head hw with rfl | ⟨q, hq, hqa⟩
  · exact absurd rfl hk
  · obtain rfl := Option.some.inj (hown.symm.trans hq)
    exact hqa

/-- No two objects of the same depth are above the same object. -/
theorem Within.eq_of_same_depth {b x : Key} (ha : m.Within x a) (hb : m.Within x b)
    (hda : m.Depth a d) (hdb : m.Depth b d) : a = b := by
  rcases ha.total hb with h | h
  · exact h.eq_of_depth hda hdb
  · exact (h.eq_of_depth hdb hda).symm

theorem Depth.not_transGen_self {r : Key → Key → Prop} (hr : ∀ x y, r x y → m.owner? y = some x)
    (h : m.Depth k d) : ¬ Relation.TransGen r k k := by
  have hlt : ∀ x y, Relation.TransGen r x y → ∀ e f, m.Depth x e → m.Depth y f → e < f := by
    intro x y hxy
    induction hxy with
    | single hxy =>
      intro e f he hf
      have := hf.unique (.owned (hr _ _ hxy) he)
      omega
    | @tail y z _ hyz ih =>
      intro e f he hf
      cases hf with
      | top _ ho => rw [hr _ _ hyz] at ho; cases ho
      | owned ho hy =>
        rw [hr _ _ hyz] at ho
        cases ho
        have := ih e _ he hy
        omega
  exact fun hk => Nat.lt_irrefl d (hlt k k hk d d h h)

theorem isAmongOwners_of_within {steps : Nat} (hw : m.Within k a) (h : m.Depth k d)
    (hd : d < steps) : m.isAmongOwners a steps k = true := by
  induction h generalizing steps with
  | top _ ho =>
    obtain ⟨steps, rfl⟩ : ∃ s, steps = s + 1 := ⟨steps - 1, by omega⟩
    rcases Relation.ReflTransGen.cases_head hw with rfl | ⟨p, ho', _⟩
    · simp [isAmongOwners]
    · rw [ho] at ho'
      cases ho'
  | owned ho _ ih =>
    obtain ⟨steps, rfl⟩ : ∃ s, steps = s + 1 := ⟨steps - 1, by omega⟩
    rcases Relation.ReflTransGen.cases_head hw with rfl | ⟨p, ho', hp⟩
    · simp [isAmongOwners]
    · rw [ho] at ho'
      cases ho'
      have hsteps := ih hp (Nat.lt_of_succ_lt_succ hd)
      simp [isAmongOwners, ho, hsteps]

theorem within_of_isAmongOwners {steps : Nat} (h : m.isAmongOwners a steps k = true) :
    m.Within k a := by
  induction steps generalizing k with
  | zero => cases h
  | succ steps ih =>
    simp only [isAmongOwners, Bool.or_eq_true, decide_eq_true_eq] at h
    rcases h with rfl | h
    · exact .refl
    · cases ho : m.owner? k with
      | none => simp [ho] at h
      | some p =>
        rw [ho] at h
        exact .head ho (ih h)

/-- The search over the owners finds out whether an object lies below another one. -/
theorem Depth.isWithin_iff (h : m.Depth k d) : m.isWithin k a = true ↔ m.Within k a := by
  have hlt : d < m.size := h.lt_size
  exact ⟨within_of_isAmongOwners, fun hw => isAmongOwners_of_within hw h (by omega)⟩

/-! ## The property -/

def Rooted (m : Model) : Prop := ∀ k, m.contains k = true → ∃ d, m.Depth k d

/-- An object keeps its depth where it and all above it keep their owners. -/
theorem Depth.mono (h : m.Depth k d)
    (hn : ∀ x, m.Within k x → n.contains x = true ∧ n.owner? x = m.owner? x) : n.Depth k d := by
  induction h with
  | top _ ho =>
    obtain ⟨hk, hown⟩ := hn _ .refl
    exact .top hk (hown.trans ho)
  | owned ho _ ih =>
    obtain ⟨-, hown⟩ := hn _ .refl
    exact .owned (hown.trans ho) (ih fun x hx => hn x (.head ho hx))

theorem contains_congr (h : n.get? k = m.get? k) : n.contains k = m.contains k :=
  congrArg Option.isSome h

theorem owner?_congr (h : n.get? k = m.get? k) : n.owner? k = m.owner? k :=
  congrArg (·.bind (·.owner)) h

namespace Rooted

theorem congr (h : m.Rooted) (hk : ∀ k, n.contains k = m.contains k)
    (ho : ∀ k, n.owner? k = m.owner? k) : n.Rooted := by
  intro k hn
  obtain ⟨d, hd⟩ := h k (hk k ▸ hn)
  refine ⟨d, hd.mono fun x hx => ⟨?_, ho x⟩⟩
  obtain ⟨e, he, -⟩ := hd.of_within hx
  exact (hk x).trans he.live

theorem updated (h : m.Rooted) {o : Object} {f : Object → Object} (ho : m.get? k = some o)
    (hf : (f o).owner = o.owner) (hobjects : n.objects = m.objects.update k f) : n.Rooted := by
  have hget := get?_of_objects_eq ho hobjects
  refine h.congr (fun l => ?_) fun l => ?_
  · by_cases hl : l = k
    · rw [hl, contains_of_get? ho, contains_of_get? ((hget k).trans (if_pos rfl))]
    · exact contains_congr ((hget l).trans (if_neg hl))
  · by_cases hl : l = k
    · rw [hl, owner?_of_get? ho, owner?_of_get? ((hget k).trans (if_pos rfl)), hf]
    · exact owner?_congr ((hget l).trans (if_neg hl))

theorem inserted (h : m.Rooted) (hs : m.objects.Sound) {owner : Option Key} {b : Body}
    (ho : ∀ p, owner = some p → m.contains p = true) : (m.inserted owner b).Rooted := by
  have hold {x : Key} (hx : m.contains x = true) :
      (m.inserted owner b).get? x = m.get? x := by
    rw [get?_inserted hs, if_neg]
    rintro rfl
    obtain ⟨o, ho⟩ := contains_iff_get?.1 hx
    rw [get?_nextKey hs] at ho
    cases ho
  have hkeep {k d} (hd : m.Depth k d) : (m.inserted owner b).Depth k d := by
    refine hd.mono fun x hx => ?_
    obtain ⟨e, he, -⟩ := hd.of_within hx
    exact ⟨(contains_congr (hold he.live)).trans he.live, owner?_congr (hold he.live)⟩
  intro k hk
  by_cases hnew : k = m.nextKey
  · subst hnew
    have hget := (get?_inserted hs owner b m.nextKey).trans (if_pos rfl)
    cases owner with
    | none => exact ⟨0, .top hk (owner?_of_get? hget)⟩
    | some p =>
      obtain ⟨d, hd⟩ := h p (ho p rfl)
      exact ⟨d + 1, .owned (owner?_of_get? hget) (hkeep hd)⟩
  · have hsame : (m.inserted owner b).get? k = m.get? k :=
      (get?_inserted hs owner b k).trans (if_neg hnew)
    obtain ⟨d, hd⟩ := h k ((contains_congr hsame).symm.trans hk)
    exact ⟨d, hkeep hd⟩

/-- An object moves to an owner that does not lie below it. -/
theorem moved (h : m.Rooted) {o : Object} (ho : m.get? k = some o) (hp : m.contains p = true)
    (hw : ¬ m.Within p k) : (m.moved k p).Rooted := by
  have hget (l : Key) : (m.moved k p).get? l =
      if l = k then some { o with owner := some p } else m.get? l := get?_update_of_get? ho _ l
  have hsame {l : Key} (hl : l ≠ k) : (m.moved k p).get? l = m.get? l :=
    (hget l).trans (if_neg hl)
  have hlive {l : Key} (hl : m.contains l = true) : (m.moved k p).contains l = true := by
    by_cases hlk : l = k
    · subst hlk
      exact contains_of_get? ((hget l).trans (if_pos rfl))
    · exact (contains_congr (hsame hlk)).trans hl
  -- Nothing above the new owner moves, so it keeps its depth.
  obtain ⟨d, hd⟩ := h p hp
  have hpd : (m.moved k p).Depth p d := by
    refine hd.mono fun x hx => ?_
    have hne : x ≠ k := fun he => hw (he ▸ hx)
    obtain ⟨e, he, -⟩ := hd.of_within hx
    exact ⟨hlive he.live, owner?_congr (hsame hne)⟩
  have hkd : (m.moved k p).Depth k (d + 1) :=
    .owned (owner?_of_get? ((hget k).trans (if_pos rfl))) hpd
  intro l hl
  have hlm : m.contains l = true := by
    by_cases hlk : l = k
    · exact hlk ▸ contains_of_get? ho
    · exact (contains_congr (hsame hlk)).symm.trans hl
  obtain ⟨e, he⟩ := h l hlm
  induction he with
  | @top x hx hown =>
    by_cases hxk : x = k
    · exact ⟨d + 1, hxk ▸ hkd⟩
    · exact ⟨0, .top (hlive hx) ((owner?_congr (hsame hxk)).trans hown)⟩
  | @owned x q e hown hq ih =>
    by_cases hxk : x = k
    · exact ⟨d + 1, hxk ▸ hkd⟩
    · obtain ⟨f, hf⟩ := ih (hlive hq.live) hq.live
      exact ⟨f + 1, .owned ((owner?_congr (hsame hxk)).trans hown) hf⟩

/-- Objects go, and no object that stays is owned by one of them. -/
theorem cleared (h : m.Rooted) {ks : List Key}
    (hks : ∀ k ∉ ks, ∀ p, m.owner? k = some p → p ∉ ks) : (m.cleared ks).Rooted := by
  have hsame {l : Key} (hl : l ∉ ks) : (m.cleared ks).get? l = m.get? l :=
    (m.get?_cleared ks l).trans (if_neg hl)
  intro k hk
  have hstay : k ∉ ks := by
    intro hmem
    obtain ⟨o, ho⟩ := contains_iff_get?.1 hk
    rw [get?_cleared, if_pos hmem] at ho
    cases ho
  obtain ⟨d, hd⟩ := h k ((contains_congr (hsame hstay)).symm.trans hk)
  refine ⟨d, hd.mono fun x hx => ?_⟩
  have hxs : x ∉ ks := by
    induction hx with
    | refl => exact hstay
    | tail _ ho ih => exact hks _ ih _ ho
  obtain ⟨e, he, -⟩ := hd.of_within hx
  exact ⟨(contains_congr (hsame hxs)).trans he.live, owner?_congr (hsame hxs)⟩

end Rooted

end ModelLabels.Model
