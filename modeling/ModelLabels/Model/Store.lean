import ModelLabels.Model.Key
/-! # Stores

A store keeps values under keys.  A new value takes the slot that was freed last, or the first slot
never used; its serial number is given by the caller.

* `get?_insert_self`, `get?_insert_of_ne`, `get?_update`, `get?_erase`: what each operation does to
  the look-up.
* `keys_insert`, `keys_update`, `keys_erase`: what it does to the keys, which stay in the order of
  insertion.
-/

namespace ModelLabels
set_option autoImplicit false

/-- Values under keys, in the order of insertion, with the slots that can be used again. -/
structure Store (α : Type) where
  entries : List (Key × α)
  /-- The slots in the order in which they are used again. -/
  freed : List Nat
  /-- The first slot that was never used. -/
  fresh : Nat

namespace Store

variable {α : Type}

/-- The store without values. -/
def empty : Store α := ⟨[], [], 0⟩

/-- The value under a key. -/
def get? (s : Store α) (k : Key) : Option α := (s.entries.find? (·.1 = k)).map (·.2)

/-- Whether there is a value under a key. -/
def contains (s : Store α) (k : Key) : Bool := (s.get? k).isSome

/-- The keys of a store in the order of insertion. -/
def keys (s : Store α) : List Key := s.entries.map (·.1)

/-- The number of values. -/
def size (s : Store α) : Nat := s.entries.length

/-- The slot for the next value. -/
def nextSlot (s : Store α) : Nat := s.freed.head?.getD s.fresh

/-- The key of the next value, if it gets this serial number. -/
def nextKey (s : Store α) (serial : Nat) : Key := ⟨s.nextSlot, serial⟩

/-- Add a value under the next key. -/
def insert (s : Store α) (serial : Nat) (a : α) : Store α where
  entries := s.entries ++ [(s.nextKey serial, a)]
  freed := s.freed.tail
  fresh := if s.freed.isEmpty then s.fresh + 1 else s.fresh

/-- Change the value under a key. -/
def update (s : Store α) (k : Key) (f : α → α) : Store α :=
  { s with entries := s.entries.map fun e => if e.1 = k then (e.1, f e.2) else e }

/-- Remove the value under a key and free its slot. -/
def erase (s : Store α) (k : Key) : Store α :=
  if s.contains k then
    { s with entries := s.entries.filter (·.1 ≠ k), freed := k.slot :: s.freed }
  else s

/-- The keys of a store by slot. -/
def keysBySlot (s : Store α) : List Key := s.keys.mergeSort fun a b => a.slot ≤ b.slot

/-! ## Look-up -/

theorem get?_eq_none_iff {s : Store α} {k : Key} : s.get? k = none ↔ k ∉ s.keys := by
  simp only [get?, Option.map_eq_none_iff, List.find?_eq_none, decide_eq_true_eq, keys,
    List.mem_map, not_exists, not_and]

theorem contains_iff {s : Store α} {k : Key} : s.contains k = true ↔ k ∈ s.keys := by
  rw [contains, Option.isSome_iff_ne_none, ne_eq, get?_eq_none_iff, Decidable.not_not]

theorem mem_keys_of_get? {s : Store α} {k : Key} {a : α} (h : s.get? k = some a) : k ∈ s.keys := by
  rw [← contains_iff, contains, h]
  rfl

theorem keys_insert (s : Store α) (serial : Nat) (a : α) :
    (s.insert serial a).keys = s.keys ++ [s.nextKey serial] := by
  simp [keys, insert]

theorem get?_insert_self {s : Store α} {serial : Nat} (h : s.nextKey serial ∉ s.keys) (a : α) :
    (s.insert serial a).get? (s.nextKey serial) = some a := by
  have hnone : s.entries.find? (·.1 = s.nextKey serial) = none := by
    have := get?_eq_none_iff.2 h
    simpa [get?] using this
  simp [get?, insert, List.find?_append, hnone]

theorem get?_insert_of_ne {s : Store α} {serial : Nat} {k : Key} (h : k ≠ s.nextKey serial)
    (a : α) : (s.insert serial a).get? k = s.get? k := by
  have hk : ¬ s.nextKey serial = k := fun e => h e.symm
  simp [get?, insert, List.find?_append, hk]

theorem keys_update (s : Store α) (k : Key) (f : α → α) : (s.update k f).keys = s.keys := by
  simp only [keys, update, List.map_map]
  apply List.map_congr_left
  intro e _
  simp only [Function.comp_apply]
  split <;> rfl

theorem get?_update (s : Store α) (k l : Key) (f : α → α) :
    (s.update k f).get? l = if l = k then (s.get? l).map f else s.get? l := by
  simp only [get?, update]
  induction s.entries with
  | nil => simp
  | cons e es ih =>
    by_cases hk : e.1 = k <;> by_cases hl : e.1 = l
    · subst hk; subst hl; simp
    · subst hk
      simp only [List.map_cons, if_true, List.find?_cons, hl, decide_false]
      simpa using ih
    · subst hl
      simp [hk]
    · simp only [List.map_cons, if_neg hk, List.find?_cons, hl, decide_false]
      simpa using ih

theorem keys_erase (s : Store α) (k : Key) : (s.erase k).keys = s.keys.filter (· ≠ k) := by
  unfold erase
  split
  · simp [keys, List.filter_map, Function.comp_def]
  · rename_i h
    rw [Bool.not_eq_true, ← Bool.not_eq_true, contains_iff] at h
    symm
    rw [List.filter_eq_self]
    intro l hl
    simp only [ne_eq, decide_not, Bool.not_eq_eq_eq_not, Bool.not_true, decide_eq_false_iff_not]
    rintro rfl
    exact h hl

theorem get?_erase (s : Store α) (k l : Key) :
    (s.erase k).get? l = if l = k then none else s.get? l := by
  split
  · rename_i h
    subst h
    rw [get?_eq_none_iff, keys_erase]
    simp
  · rename_i h
    unfold erase
    split
    · simp only [get?, List.find?_filter]
      congr 2
      funext e
      by_cases he : e.1 = l
      · simp [he, h]
      · simp [he]
    · rfl

end Store

end ModelLabels
