import Mathlib.Data.List.Nodup
import Mathlib.Data.List.Perm.Subperm
import ModelLabels.Proofs.Integrity.Slots
import ModelLabels.Proofs.Role
/-! # Identifiers are exact

The identifiers in use are those of the model and of its objects, and no two of them are the same.

* `Model.freshId_not_mem`: an identifier that is made up is not in use.
* `Model.IdsExact`: the property, and what each change does to it.
-/

namespace ModelLabels
set_option autoImplicit false

/-! ## Made-up identifiers -/

theorem idText_ne_empty (n : Nat) : idText n ≠ "" := by
  intro h
  have := congrArg String.toList h
  simp [idText] at this

/-- If the identifier that the search ends with is in use, all that were tried are. -/
theorem mem_of_freeIdNumber_mem {used : List String} {tries last : Nat}
    (h : idText (freeIdNumber used tries last) ∈ used) {i : Nat} (hlow : last < i)
    (hhigh : i ≤ last + tries + 1) : idText i ∈ used := by
  induction tries generalizing last with
  | zero =>
    have hi : i = last + 1 := by omega
    rw [hi]
    exact h
  | succ tries ih =>
    unfold freeIdNumber at h
    by_cases hmem : idText (last + 1) ∈ used
    · rw [if_pos hmem] at h
      by_cases hi : i = last + 1
      · rw [hi]
        exact hmem
      · exact ih h (by omega) (by omega)
    · rw [if_neg hmem] at h
      exact absurd h hmem

/-- Among identifiers that are made up one after the other, no more are in use than there are in use. -/
theorem le_length_of_idText_mem {used : List String} (last : Nat) {count : Nat}
    (h : ∀ i, last < i → i ≤ last + count → idText i ∈ used) : count ≤ used.length := by
  let tried := (List.range count).map fun j => idText (last + 1 + j)
  have hnd : tried.Nodup := by
    refine List.Nodup.map (fun a b e => ?_) List.nodup_range
    have := idText_injective e
    omega
  have hsub : tried ⊆ used := by
    intro id hid
    obtain ⟨j, hj, rfl⟩ := List.mem_map.1 hid
    rw [List.mem_range] at hj
    exact h _ (by omega) (by omega)
  have hle : tried.length ≤ used.length := (hnd.subperm hsub).length_le
  rwa [List.length_map, List.length_range] at hle

/-- As many tries as there are identifiers in use are enough. -/
theorem freeIdNumber_not_mem {used : List String} {tries : Nat} (h : used.length ≤ tries)
    (last : Nat) : idText (freeIdNumber used tries last) ∉ used := by
  intro hmem
  have hle : tries + 1 ≤ used.length :=
    le_length_of_idText_mem last fun i hlow hhigh => mem_of_freeIdNumber_mem hmem hlow hhigh
  omega

namespace Model
variable {m n : Model}

theorem freshId_not_mem (m : Model) : m.freshId.1 ∉ m.usedIds :=
  freeIdNumber_not_mem (Nat.le_refl _) m.lastId

/-! ## The property -/

/-- The identifier of the object under a key. -/
def idOf? (m : Model) (k : Key) : Option String := (m.get? k).map (·.id)

/-- The identifiers in use are those of the model and its objects, each of one of them. -/
structure IdsExact (m : Model) : Prop where
  mem_usedIds : ∀ id, id ∈ m.usedIds ↔ id = m.id ∨ ∃ k, m.idOf? k = some id
  injective : ∀ {k l id}, m.idOf? k = some id → m.idOf? l = some id → k = l
  ne_id : ∀ k, m.idOf? k ≠ some m.id
  empty_not_mem : "" ∉ m.usedIds

/-- The identifiers of what goes are set free, and no others. -/
theorem mem_usedIds_cleared {ks : List Key} {id : String} :
    id ∈ (m.cleared ks).usedIds ↔ id ∈ m.usedIds ∧ ∀ k ∈ ks, m.idOf? k ≠ some id := by
  show id ∈ (ks.foldl Model.erase m).usedIds ↔ _
  induction ks generalizing m with
  | nil => simp
  | cons k ks ih =>
    have hused : id ∈ (m.erase k).usedIds ↔ id ∈ m.usedIds ∧ m.idOf? k ≠ some id := by
      cases ho : m.get? k with
      | none => simp [Model.erase, idOf?, ho]
      | some o =>
        rw [Model.erase, ho, idOf?, ho]
        simp [releaseId, eq_comm (a := id)]
    have hids : ∀ l, (m.erase k).idOf? l = if l = k then none else m.idOf? l := by
      intro l
      rw [idOf?, get?_erase]
      split <;> rfl
    rw [List.foldl_cons, ih, hused, List.forall_mem_cons, and_assoc]
    refine and_congr_right fun _ => and_congr_right fun hk => ?_
    refine forall_congr' fun l => imp_congr_right fun _ => ?_
    by_cases hl : l = k
    · simp [hids, hl, hk]
    · rw [hids, if_neg hl]

namespace IdsExact

theorem congr (h : m.IdsExact) (hid : n.id = m.id) (hused : n.usedIds = m.usedIds)
    (hids : ∀ k, n.idOf? k = m.idOf? k) : n.IdsExact where
  mem_usedIds id := by
    simp only [hused, hid, hids]
    exact h.mem_usedIds id
  injective hk hl := by
    rw [hids] at hk hl
    exact h.injective hk hl
  ne_id k := by
    rw [hids, hid]
    exact h.ne_id k
  empty_not_mem := by
    rw [hused]
    exact h.empty_not_mem

/-- One more object with an identifier that was not in use. -/
theorem insert (h : m.IdsExact) {k : Key} {id : String} (hk : m.idOf? k = none)
    (hid : id ∉ m.usedIds) (hne : id ≠ "") (hmodel : n.id = m.id)
    (hused : n.usedIds = id :: m.usedIds)
    (hids : ∀ l, n.idOf? l = if l = k then some id else m.idOf? l) : n.IdsExact := by
  have hfree : id ≠ m.id ∧ ∀ l, m.idOf? l ≠ some id := by
    rw [h.mem_usedIds, not_or, not_exists] at hid
    exact hid
  constructor
  · intro id'
    rw [hused, List.mem_cons, h.mem_usedIds, hmodel]
    constructor
    · rintro (rfl | rfl | ⟨l, hl⟩)
      · exact .inr ⟨k, by rw [hids, if_pos rfl]⟩
      · exact .inl rfl
      · refine .inr ⟨l, ?_⟩
        rw [hids, if_neg, hl]
        rintro rfl
        simp [hk] at hl
    · rintro (rfl | ⟨l, hl⟩)
      · exact .inr (.inl rfl)
      · rw [hids] at hl
        split at hl
        · cases hl
          exact .inl rfl
        · exact .inr (.inr ⟨l, hl⟩)
  · intro a b id' ha hb
    rw [hids] at ha hb
    split at ha <;> split at hb
    · simp_all
    · cases ha
      exact absurd hb (hfree.2 b)
    · cases hb
      exact absurd ha (hfree.2 a)
    · exact h.injective ha hb
  · intro l hl
    rw [hids, hmodel] at hl
    split at hl
    · cases hl
      exact hfree.1 rfl
    · exact h.ne_id l hl
  · rw [hused, List.mem_cons, not_or]
    exact ⟨hne.symm, h.empty_not_mem⟩

/-- Some objects go, and their identifiers go out of use. -/
theorem erase (h : m.IdsExact) (gone : Key → Prop) (hmodel : n.id = m.id)
    (hused : ∀ id, id ∈ n.usedIds ↔ id ∈ m.usedIds ∧ ∀ k, gone k → m.idOf? k ≠ some id)
    (hids : ∀ k, ¬ gone k → n.idOf? k = m.idOf? k) (hgone : ∀ k, gone k → n.idOf? k = none) :
    n.IdsExact := by
  have hstays : ∀ {k id}, n.idOf? k = some id → ¬ gone k ∧ m.idOf? k = some id := by
    intro k id hk
    have hng : ¬ gone k := fun hg => by simp [hgone k hg] at hk
    exact ⟨hng, hids k hng ▸ hk⟩
  constructor
  · intro id
    rw [hused, h.mem_usedIds, hmodel]
    constructor
    · rintro ⟨rfl | ⟨k, hk⟩, hnot⟩
      · exact .inl rfl
      · have hng : ¬ gone k := fun hg => hnot k hg hk
        exact .inr ⟨k, by rw [hids k hng, hk]⟩
    · rintro (rfl | ⟨k, hk⟩)
      · exact ⟨.inl rfl, fun k _ => h.ne_id k⟩
      · obtain ⟨hng, hk⟩ := hstays hk
        refine ⟨.inr ⟨k, hk⟩, fun l hl he => hng ?_⟩
        rw [h.injective hk he]
        exact hl
  · exact fun hk hl => h.injective (hstays hk).2 (hstays hl).2
  · intro k hk
    rw [hmodel] at hk
    exact h.ne_id k (hstays hk).2
  · exact fun he => h.empty_not_mem ((hused "").1 he).1

/-- An object gets another identifier, one that was not in use. -/
theorem rename (h : m.IdsExact) {k : Key} {old id : String} (hk : m.idOf? k = some old)
    (hid : id ∉ m.usedIds) (hne : id ≠ "") (hmodel : n.id = m.id)
    (hused : n.usedIds = id :: m.usedIds.filter (· ≠ old))
    (hids : ∀ l, n.idOf? l = if l = k then some id else m.idOf? l) : n.IdsExact := by
  -- The object goes with its old identifier and comes back with the new one.
  let without : Model :=
    { m with objects := m.objects.erase k, usedIds := m.usedIds.filter (· ≠ old) }
  have hget (l : Key) : without.idOf? l = if l = k then none else m.idOf? l := by
    show (Option.map _ ((m.objects.erase k).get? l)) = _
    rw [Store.get?_erase]
    split <;> rfl
  have hwithout : without.IdsExact := by
    refine h.erase (· = k) rfl (fun id' => ?_) (fun l hl => ?_) fun l hl => ?_
    · show id' ∈ m.usedIds.filter (· ≠ old) ↔ _
      rw [List.mem_filter, forall_eq, hk, decide_eq_true_eq, ne_eq, ne_eq, Option.some.injEq,
        eq_comm (a := old)]
    · rw [hget, if_neg hl]
    · rw [hget, if_pos hl]
  refine hwithout.insert (k := k) (by rw [hget, if_pos rfl]) ?_ hne hmodel hused fun l => ?_
  · exact fun hmem => hid (List.mem_filter.1 hmem).1
  · rw [hids, hget]
    split <;> rfl

theorem inserted (h : m.IdsExact) (hs : m.objects.Sound) (owner : Option Key) (b : Body) :
    (m.inserted owner b).IdsExact := by
  refine h.insert (k := m.nextKey) ?_ m.freshId_not_mem (idText_ne_empty _) rfl rfl fun l => ?_
  · rw [idOf?, get?_nextKey hs]
    rfl
  · rw [idOf?, get?_inserted hs]
    split <;> rfl

theorem renamed (h : m.IdsExact) {k : Key} {o : Object} {id : String} (ho : m.get? k = some o)
    (hid : id ∉ m.usedIds) (hne : id ≠ "") : (m.renamed k o.id id).IdsExact := by
  have hk : m.idOf? k = some o.id := by
    rw [idOf?, ho]
    rfl
  refine h.rename hk hid hne rfl rfl fun l => ?_
  show ((m.update k _).get? l).map _ = _
  rw [get?_update_of_get? ho]
  split <;> rfl

theorem updated (h : m.IdsExact) {k : Key} {o : Object} {f : Object → Object}
    (ho : m.get? k = some o) (hf : (f o).id = o.id) (hobjects : n.objects = m.objects.update k f)
    (hid : n.id = m.id) (hused : n.usedIds = m.usedIds) : n.IdsExact := by
  refine h.congr hid hused fun l => ?_
  have hget := get?_of_objects_eq ho hobjects l
  by_cases hl : l = k
  · rw [idOf?, hget, if_pos hl, idOf?, hl, ho]
    exact congrArg some hf
  · rw [idOf?, hget, if_neg hl, idOf?]

theorem cleared (h : m.IdsExact) (ks : List Key) : (m.cleared ks).IdsExact := by
  refine h.erase (· ∈ ks) (m.cleared_frame ks).2.1 (fun id => mem_usedIds_cleared) ?_ ?_
  · intro k hk
    rw [idOf?, get?_cleared, if_neg hk, idOf?]
  · intro k hk
    rw [idOf?, get?_cleared, if_pos hk]
    rfl

end IdsExact

end Model

end ModelLabels
