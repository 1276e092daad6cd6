import ModelLabels.Proofs.FolderTree
import ModelLabels.Proofs.References
/-! # Concepts and views lie in trees of their own

The root type of a folder is written down when the folder is made and never worked out again.  In
every reachable model it is right all the same: above a folder there are folders of the same root
type only, and the last of them is the top-level folder of that type.

* `Model.ClimbsTo`: where the way over the owners of a folder ends.
* `Consistent.climbsTo_of_within`: it ends at the first folder that has no owner.
* `Model.FoldersTyped`: the property; `Reachable.folders_typed`.
-/

namespace ModelLabels.Model
set_option autoImplicit false

variable {m : Model} {k p a : Key} {t r : FolderType}

/-- From a folder, the way over folders and the owners they name ends at a folder that names none. -/
inductive ClimbsTo (m : Model) : Key → Key → Prop where
  | top {a : Key} {f : Folder} (ha : m.folder? a = some f) (hown : m.owner? a = none) :
      ClimbsTo m a a
  | up {k p a : Key} {f : Folder} (hk : m.folder? k = some f) (hown : m.owner? k = some p)
      (hp : ClimbsTo m p a) : ClimbsTo m k a

/-- Folders know the top-level folder they lie below, and hold what is kept in its tree alone. -/
structure FoldersTyped (m : Model) : Prop where
  climbs : ∀ k f, m.folder? k = some f → ∃ a g, m.ClimbsTo k a ∧ m.folder? a = some g ∧
    g.type = f.rootType ∧ m.topLevelFolder? f.rootType = some a
  concepts : ∀ k c, m.concept? k = some c → ∃ p f, m.owner? k = some p ∧ m.folder? p = some f ∧
    f.rootType = .forCategory c.kind.category
  relationships : ∀ k c, m.concept? k = some c → c.kind.isRelationship = true →
    m.InTree .relations k
  technology : ∀ k c e, m.concept? k = some c → c.kind = .element e →
    e.category = .technology ∨ e.category = .physical → m.InTree .technology k
  views : ∀ k, (m.view? k).isSome = true → ∃ p f, m.owner? k = some p ∧ m.folder? p = some f ∧
    f.rootType = .views
  concepts_apart : ∀ k a f, (m.concept? k).isSome = true → m.folder? a = some f → m.Within k a →
    f.isViewFolder = false
  views_apart : ∀ k a f, (m.view? k).isSome = true → m.folder? a = some f → m.Within k a →
    f.isViewFolder = true

/-! ## The way up -/

theorem Consistent.climbsTo_of_within (h : m.Consistent) (hw : m.Within k a)
    (ha : m.owner? a = none) (hk : m.role? k = some (.folder t r)) : m.ClimbsTo k a := by
  induction hw using Relation.ReflTransGen.head_induction_on generalizing t with
  | refl =>
    obtain ⟨f, hf, -⟩ := exists_folder_of_role? hk
    exact .top hf ha
  | head hown _ ih =>
    obtain ⟨f, hf, -⟩ := exists_folder_of_role? hk
    obtain ⟨t', ht'⟩ := h.folder_of_owner hk hown
    exact .up hf hown (ih ht')

theorem Sound.exists_climbsTo (h : m.Sound) (ht : m.TypesExact)
    (hk : m.role? k = some (.folder t r)) :
    ∃ a g, m.ClimbsTo k a ∧ m.folder? a = some g ∧ g.type = r ∧ m.topLevelFolder? r = some a := by
  obtain ⟨d, hd⟩ := h.rooted k (contains_of_role? hk)
  obtain ⟨a, hmem, hw⟩ := h.exists_root hd hk
  obtain ⟨-, hown⟩ := (h.top.mem_iff a).1 (List.mem_map.2 ⟨_, hmem, rfl⟩)
  obtain ⟨g, hg, htype, -⟩ := exists_folder_of_role? (h.top.role hmem)
  exact ⟨a, g, h.climbsTo_of_within hw hown hk, hg, htype, ht.topLevelFolder?_eq_some.2 hmem⟩

/-- Whatever lies in a folder and is no folder has folders of one root type above it. -/
theorem Consistent.rootType_above (h : m.Consistent) {f : Folder} (hown : m.owner? k = some p)
    (hp : m.role? p = some (.folder t r)) (hk : m.folder? k = none) (ha : m.folder? a = some f)
    (hw : m.Within k a) : f.rootType = r := by
  rcases Relation.ReflTransGen.cases_head hw with rfl | ⟨q, hq, hqa⟩
  · rw [hk] at ha
    cases ha
  · obtain rfl : p = q := Option.some.inj (hown.symm.trans hq)
    obtain ⟨t', hrole⟩ := h.folder_of_within hqa hp
    have hfolder := role?_of_folder? ha
    rw [hrole] at hfolder
    cases hfolder
    rfl

theorem folder?_eq_none_of_role? {s : Role} (hk : m.role? k = some s)
    (hs : ∀ t r, s ≠ .folder t r) : m.folder? k = none := by
  rw [Option.eq_none_iff_forall_ne_some]
  intro f hf
  have hfolder := role?_of_folder? hf
  rw [hk] at hfolder
  exact hs _ _ (Option.some.inj hfolder)

/-- Whatever is held by folders of one root type only lies in one of them, and has folders of that root
type only above it. -/
theorem Consistent.lies_among (h : m.Consistent) {s : Role} (hk : m.role? k = some s)
    (hs : ∀ t r, s ≠ .folder t r)
    (hheld : ∀ p, m.Holds p s → ∃ t, m.role? p = some (.folder t r)) :
    (∃ p f, m.owner? k = some p ∧ m.folder? p = some f ∧ f.rootType = r) ∧
      ∀ a f, m.folder? a = some f → m.Within k a → f.rootType = r := by
  obtain ⟨p, hown, hp⟩ := h.exists_owner hk hs
  obtain ⟨t, ht⟩ := hheld p hp
  obtain ⟨f, hf, -, hroot⟩ := exists_folder_of_role? ht
  exact ⟨⟨p, f, hown, hf, hroot⟩, fun a g ha hw =>
    h.rootType_above hown ht (folder?_eq_none_of_role? hk hs) ha hw⟩

theorem Consistent.concept_lies_among (h : m.Consistent) {c : Concept}
    (hk : m.concept? k = some c) :
    (∃ p f, m.owner? k = some p ∧ m.folder? p = some f ∧
        f.rootType = .forCategory c.kind.category) ∧
      ∀ a f, m.folder? a = some f → m.Within k a → f.rootType = .forCategory c.kind.category :=
  h.lies_among (role?_of_concept? hk) (by simp) fun _ hp => hp

theorem Consistent.view_lies_among (h : m.Consistent) (hk : (m.view? k).isSome = true) :
    (∃ p f, m.owner? k = some p ∧ m.folder? p = some f ∧ f.rootType = .views) ∧
      ∀ a f, m.folder? a = some f → m.Within k a → f.rootType = .views :=
  h.lies_among (view?_isSome_iff.1 hk) (by simp) fun _ hp => hp

/-- A concept lies in the tree for its category. -/
theorem Sound.inTree_of_concept (h : m.Sound) (ht : m.TypesExact) {kind : ConceptKind}
    (hk : m.role? k = some (.concept kind)) : m.InTree (.forCategory kind.category) k := by
  obtain ⟨p, hown, t, hp⟩ := h.exists_owner hk (by simp)
  obtain ⟨a, ha, hw⟩ := (h.inTree_iff ht hp).2 rfl
  exact ⟨a, ha, .head hown hw⟩

/-! ## The property -/

theorem Sound.foldersTyped (h : m.Sound) (ht : m.TypesExact) : m.FoldersTyped where
  climbs k f hf := h.exists_climbsTo ht (role?_of_folder? hf)
  concepts k c hc := (h.concept_lies_among hc).1
  relationships k c hc hrel := by
    have htree := h.inTree_of_concept ht (role?_of_concept? hc)
    cases hkind : c.kind with
    | element e => simp [hkind, ConceptKind.isRelationship, ConceptKind.ends?] at hrel
    | relationship type source target => rwa [hkind] at htree
  technology k c e hc hkind hcategory := by
    have htree := h.inTree_of_concept ht (role?_of_concept? hc)
    rw [hkind, ConceptKind.category] at htree
    rcases hcategory with he | he <;> rwa [he] at htree
  views k hk := (h.view_lies_among hk).1
  concepts_apart k a f hk ha hw := by
    obtain ⟨c, hc⟩ := Option.isSome_iff_exists.1 hk
    rw [Folder.isViewFolder, (h.concept_lies_among hc).2 a f ha hw]
    exact decide_eq_false (FolderType.forCategory_ne_views _)
  views_apart k a f hk ha hw := by
    rw [Folder.isViewFolder, (h.view_lies_among hk).2 a f ha hw]
    rfl

/-- In every reachable model the folder tree is typed by its top-level folders. -/
theorem Reachable.folders_typed (h : m.Reachable) : m.FoldersTyped :=
  h.sound.foldersTyped h.topLevel_types

/-- An element in a folder that was moved into another one is still among the business concepts. -/
theorem folders_typed_moved :
    let business : Key := ⟨1, 2⟩
    let a := (new 1 "Plan").nextKey
    let m₁ := ((new 1 "Plan").apply (.addFolder business "Actors")).2
    let b := m₁.nextKey
    let m₂ := (m₁.apply (.addFolder business "Roles")).2
    let buyer := m₂.nextKey
    let n := ((m₂.apply (.addElementIn a .businessActor "Buyer")).2.apply (.moveTo a b)).2
    n.Reachable ∧ n.owner? buyer = some a ∧ n.owner? a = some b ∧ n.FoldersTyped ∧
      ∃ top g, n.ClimbsTo a top ∧ n.folder? top = some g ∧ g.type = .business := by
  intro business a m₁ b m₂ buyer n
  have hn : n.Reachable :=
    .step (.step (.step (.step (.new 1 "Plan") (.apply _)) (.apply _)) (.apply _)) (.apply _)
  have hf : n.folder? a = some ⟨.named "Actors", .user, .business⟩ := by decide
  have htyped := hn.folders_typed
  obtain ⟨top, g, hclimbs, hg, htype, -⟩ := htyped.climbs a _ hf
  exact ⟨hn, by decide, by decide, htyped, top, g, hclimbs, hg, htype⟩

end ModelLabels.Model
