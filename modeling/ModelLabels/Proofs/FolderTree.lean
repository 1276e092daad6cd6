import ModelLabels.Proofs.Containment
/-! # Folders lie where their root type says

A folder and the folder that holds it have the same root type, and a top-level folder has its own type
as root type.  So the root type of a folder names the top-level folder above it.

* `topLevelFolder?_eq_some`: there is one top-level folder of each type but that of user folders.
* `Model.InTree`: an object is the top-level folder of a type or lies below it.
* `Sound.inTree_iff`: a folder is in the tree of its root type and in no other one.
-/

namespace ModelLabels.Model
set_option autoImplicit false

variable {m : Model} {k a b : Key} {t r : FolderType}

/-- The types of the top-level folders are those that a model is created with. -/
def TypesExact (m : Model) : Prop := m.topLevel.map (·.1) = FolderType.topLevel

theorem TypesExact.topLevelFolder?_eq_some (h : m.TypesExact) :
    m.topLevelFolder? t = some a ↔ (t, a) ∈ m.topLevel := by
  have hnodup : (m.topLevel.map (·.1)).Nodup := h ▸ by decide
  rw [topLevelFolder?, Option.map_eq_some_iff]
  constructor
  · rintro ⟨⟨t', a'⟩, hfind, rfl⟩
    obtain rfl : t' = t := by simpa using List.find?_some hfind
    exact List.mem_of_find?_eq_some hfind
  · intro hmem
    cases hfind : m.topLevel.find? (·.1 = t) with
    | none => simpa using List.find?_eq_none.1 hfind _ hmem
    | some e =>
      have he : e.1 = t := by simpa using List.find?_some hfind
      obtain rfl : e = (t, a) :=
        List.inj_on_of_nodup_map hnodup (List.mem_of_find?_eq_some hfind) hmem he
      exact ⟨_, rfl, rfl⟩

theorem TypesExact.exists_folder (h : m.TypesExact) (ht : t ≠ .user) :
    ∃ a, m.topLevelFolder? t = some a := by
  have hmem : t ∈ m.topLevel.map (·.1) := h ▸ FolderType.mem_topLevel.2 ht
  obtain ⟨⟨t', a⟩, ha, rfl⟩ := List.mem_map.1 hmem
  exact ⟨a, h.topLevelFolder?_eq_some.2 ha⟩

/-- Whether an object is the top-level folder of a type or lies below it. -/
def InTree (m : Model) (t : FolderType) (k : Key) : Prop :=
  ∃ a, m.topLevelFolder? t = some a ∧ m.Within k a

theorem Sound.exists_root (h : m.Sound) {d : Nat} (hd : m.Depth k d)
    (hk : m.role? k = some (.folder t r)) : ∃ a, (r, a) ∈ m.topLevel ∧ m.Within k a := by
  induction hd generalizing t with
  | @top k hlive hown =>
    obtain ⟨o, ho, hrole⟩ := get?_of_role? hk
    obtain ⟨-, hfit⟩ := h.fits ho
    rw [← owner?_of_get? ho, hown] at hfit
    obtain ⟨t', ht', -⟩ := hfit
    obtain ⟨⟨t'', k⟩, hmem, rfl⟩ := List.mem_map.1 ((h.top.mem_iff k).2 ⟨hlive, hown⟩)
    have htop := h.top.role hmem
    rw [hk, ← hrole, ht'] at htop
    rw [hrole] at ht'
    cases ht'
    cases htop
    exact ⟨k, hmem, .refl⟩
  | owned hown _ ih =>
    obtain ⟨t', ht'⟩ := h.folder_of_owner hk hown
    obtain ⟨a, ha, hwithin⟩ := ih ht'
    exact ⟨a, ha, .head hown hwithin⟩

/-- A folder is in the tree of its root type and in no other one. -/
theorem Sound.inTree_iff (h : m.Sound) (ht : m.TypesExact) {s : FolderType}
    (hk : m.role? k = some (.folder t r)) : m.InTree s k ↔ s = r := by
  obtain ⟨d, hd⟩ := h.rooted k (contains_of_role? hk)
  obtain ⟨a, ha, hwithin⟩ := h.exists_root hd hk
  constructor
  · rintro ⟨b, hb, hbelow⟩
    rw [ht.topLevelFolder?_eq_some] at hb
    have hda : m.Depth a 0 := h.depth_zero (List.mem_map.2 ⟨_, ha, rfl⟩)
    have hdb : m.Depth b 0 := h.depth_zero (List.mem_map.2 ⟨_, hb, rfl⟩)
    obtain rfl := hwithin.eq_of_same_depth hbelow hda hdb
    have hra := h.top.role ha
    rw [h.top.role hb] at hra
    cases hra
    rfl
  · rintro rfl
    exact ⟨a, ht.topLevelFolder?_eq_some.2 ha, hwithin⟩

end ModelLabels.Model
