import Mathlib.Data.List.Nodup
import ModelLabels.Proofs.Change
/-! # Slots are held once

In a store no two values sit in one slot, and the slots to be used again are free.  Every operation of
a store keeps this, so that the key of a new value is always a new one.

* `Store.Sound`: the property, and what each operation of a store does to it.
* `Model.get?_inserted`, `Model.get?_cleared`: the objects of a model after a change.
-/

namespace ModelLabels
set_option autoImplicit false

namespace Store

variable {α : Type} {s : Store α}

/-- The slots of the values, the slots to be used again, and the slots never used are apart. -/
structure Sound (s : Store α) : Prop where
  slots_nodup : (s.keys.map (·.slot)).Nodup
  freed_nodup : s.freed.Nodup
  not_freed : ∀ k ∈ s.keys, k.slot ∉ s.freed
  slot_lt : ∀ k ∈ s.keys, k.slot < s.fresh
  freed_lt : ∀ i ∈ s.freed, i < s.fresh

namespace Sound

theorem empty : (Store.empty : Store α).Sound where
  slots_nodup := List.nodup_nil
  freed_nodup := List.nodup_nil
  not_freed := fun _ h => nomatch h
  slot_lt := fun _ h => nomatch h
  freed_lt := fun _ h => nomatch h

theorem keys_nodup (h : s.Sound) : s.keys.Nodup := h.slots_nodup.of_map _

theorem slot_ne_nextSlot (h : s.Sound) {k : Key} (hk : k ∈ s.keys) : k.slot ≠ s.nextSlot := by
  unfold nextSlot
  cases hf : s.freed with
  | nil => exact Nat.ne_of_lt (h.slot_lt k hk)
  | cons i rest =>
    intro e
    apply h.not_freed k hk
    rw [hf, e]
    exact List.mem_cons_self

theorem nextKey_not_mem (h : s.Sound) (serial : Nat) : s.nextKey serial ∉ s.keys :=
  fun hk => h.slot_ne_nextSlot hk rfl

theorem get?_insert (h : s.Sound) (serial : Nat) (a : α) (k : Key) :
    (s.insert serial a).get? k = if k = s.nextKey serial then some a else s.get? k := by
  by_cases hk : k = s.nextKey serial
  · rw [if_pos hk, hk]
    exact get?_insert_self (h.nextKey_not_mem serial) a
  · rw [if_neg hk]
    exact get?_insert_of_ne hk a

theorem insert (h : s.Sound) (serial : Nat) (a : α) : (s.insert serial a).Sound := by
  have hlt : s.nextSlot < (s.insert serial a).fresh := by
    unfold nextSlot Store.insert
    cases hf : s.freed with
    | nil => exact Nat.lt_succ_self _
    | cons i rest => exact h.freed_lt i (hf ▸ List.mem_cons_self)
  have hle : s.fresh ≤ (s.insert serial a).fresh := by
    unfold Store.insert
    dsimp only
    split <;> omega
  have htail : ∀ i ∈ s.freed.tail, i ∈ s.freed := fun i hi => List.mem_of_mem_tail hi
  have hnext : s.nextSlot ∉ s.freed.tail := by
    have hnd := h.freed_nodup
    intro hi
    unfold nextSlot at hi
    cases hf : s.freed with
    | nil => simp [hf] at hi
    | cons j rest =>
      rw [hf] at hi hnd
      exact (List.nodup_cons.1 hnd).1 hi
  constructor
  · rw [keys_insert, List.map_append, List.nodup_append]
    refine ⟨h.slots_nodup, by simp, ?_⟩
    intro i hi j hj e
    obtain ⟨k, hk, rfl⟩ := List.mem_map.1 hi
    simp only [List.map_cons, List.map_nil, List.mem_singleton] at hj
    exact h.slot_ne_nextSlot hk (e.trans hj)
  · exact h.freed_nodup.sublist (List.tail_sublist _)
  · intro k hk
    rw [keys_insert, List.mem_append, List.mem_singleton] at hk
    rcases hk with hk | rfl
    · exact fun hi => h.not_freed k hk (htail _ hi)
    · exact hnext
  · intro k hk
    rw [keys_insert, List.mem_append, List.mem_singleton] at hk
    rcases hk with hk | rfl
    · exact Nat.lt_of_lt_of_le (h.slot_lt k hk) hle
    · exact hlt
  · exact fun i hi => Nat.lt_of_lt_of_le (h.freed_lt i (htail i hi)) hle

theorem update (h : s.Sound) (k : Key) (f : α → α) : (s.update k f).Sound where
  slots_nodup := by
    rw [keys_update]
    exact h.slots_nodup
  freed_nodup := h.freed_nodup
  not_freed := by
    rw [keys_update]
    exact h.not_freed
  slot_lt := by
    rw [keys_update]
    exact h.slot_lt
  freed_lt := h.freed_lt

theorem eq_of_slot_eq (h : s.Sound) {k l : Key} (hk : k ∈ s.keys) (hl : l ∈ s.keys)
    (e : k.slot = l.slot) : k = l :=
  List.inj_on_of_nodup_map h.slots_nodup hk hl e

theorem erase (h : s.Sound) (k : Key) : (s.erase k).Sound := by
  by_cases hk : s.contains k = true
  · have hmem : ∀ l ∈ (s.erase k).keys, l ∈ s.keys ∧ l ≠ k := by
      intro l hl
      rw [keys_erase, List.mem_filter] at hl
      exact ⟨hl.1, by simpa using hl.2⟩
    have hfreed : (s.erase k).freed = k.slot :: s.freed := by
      unfold Store.erase
      rw [if_pos hk]
    have hfresh : (s.erase k).fresh = s.fresh := by
      unfold Store.erase
      rw [if_pos hk]
    rw [contains_iff] at hk
    constructor
    · rw [keys_erase]
      exact h.slots_nodup.sublist (List.filter_sublist.map _)
    · rw [hfreed]
      exact List.nodup_cons.2 ⟨h.not_freed k hk, h.freed_nodup⟩
    · intro l hl
      rw [hfreed, List.mem_cons, not_or]
      exact ⟨fun e => (hmem l hl).2 (h.eq_of_slot_eq (hmem l hl).1 hk e), h.not_freed l (hmem l hl).1⟩
    · intro l hl
      rw [hfresh]
      exact h.slot_lt l (hmem l hl).1
    · rw [hfreed, hfresh]
      intro i hi
      rcases List.mem_cons.1 hi with rfl | hi
      · exact h.slot_lt k hk
      · exact h.freed_lt i hi
  · unfold Store.erase
    rw [if_neg hk]
    exact h

end Sound

end Store

/-! ## The objects of a model after a change -/

namespace Model
variable {m : Model} {k : Key} {ks : List Key}

theorem get?_nextKey (h : m.objects.Sound) : m.get? m.nextKey = none :=
  Store.get?_eq_none_iff.2 (h.nextKey_not_mem _)

theorem get?_inserted (h : m.objects.Sound) (owner : Option Key) (b : Body) (l : Key) :
    (m.inserted owner b).get? l =
      if l = m.nextKey then some ⟨m.freshId.1, owner, b⟩ else m.get? l :=
  h.get?_insert _ _ l

theorem get?_erase (m : Model) (k l : Key) :
    (m.erase k).get? l = if l = k then none else m.get? l := by
  unfold erase
  cases h : m.get? k with
  | some o => exact Store.get?_erase m.objects k l
  | none =>
    by_cases hl : l = k
    · rw [if_pos hl, hl, h]
    · rw [if_neg hl]

theorem get?_foldl_erase (ks : List Key) (m : Model) (l : Key) :
    (ks.foldl erase m).get? l = if l ∈ ks then none else m.get? l := by
  induction ks generalizing m with
  | nil => rfl
  | cons k ks ih =>
    rw [List.foldl_cons, ih, get?_erase]
    by_cases hks : l ∈ ks <;> by_cases hk : l = k <;> simp [hks, hk]

theorem get?_cleared (m : Model) (ks : List Key) (l : Key) :
    (m.cleared ks).get? l = if l ∈ ks then none else m.get? l := get?_foldl_erase ks m l

theorem sound_erase (h : m.objects.Sound) (k : Key) : (m.erase k).objects.Sound := by
  unfold erase
  cases m.get? k with
  | some o => exact h.erase k
  | none => exact h

theorem sound_cleared (h : m.objects.Sound) (ks : List Key) : (m.cleared ks).objects.Sound := by
  show (ks.foldl erase m).objects.Sound
  induction ks generalizing m with
  | nil => exact h
  | cons k ks ih => exact ih (sound_erase h k)

end Model

end ModelLabels
