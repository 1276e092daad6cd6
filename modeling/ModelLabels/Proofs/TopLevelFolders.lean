import ModelLabels.Proofs.FolderTyping
/-! # The top-level folders are permanent

Whatever a model goes through, its top-level folders are the ones it was created with, each of its own
type and under its own key, and no other object goes without an owner.  So what is added to them by
default always finds its folder.

* `topLevel_new`: the top-level folders of a new model; `Reachable.topLevel_eq`: of a reachable one.
* `Sound.requireAccepting_topLevel`, `apply_addElement`, `apply_addView`, `apply_addRelationship`: what
  adding to a top-level folder comes to.
* `Reachable.topLevel_permanent`: the property.
-/

namespace ModelLabels.Model
set_option autoImplicit false

variable {m : Model} {k a : Key} {t : FolderType} {c : Category}

/-! ## The folders a model is created with -/

theorem topLevel_new (instanceNumber : Nat) (name : String) :
    (new instanceNumber name).topLevel =
      FolderType.topLevel.zipIdx.map fun e => (e.1, ⟨e.2, e.2 + 1⟩) := rfl

theorem Reachable.topLevel_eq (h : m.Reachable) (instanceNumber : Nat) (name : String) :
    m.topLevel = (Model.new instanceNumber name).topLevel := by
  induction h with
  | new i title => rw [topLevel_new, topLevel_new]
  | copy _ _ ih => exact ih
  | step _ hs ih =>
    rcases hs.eq_or_effect with rfl | ⟨answer, he⟩
    · exact ih
    · exact he.topLevel.trans ih

/-- The top-level folder of a type is a folder of that type, at the root of its own tree. -/
theorem Sound.exists_of_topLevel (h : m.Sound) (hk : (t, k) ∈ m.topLevel) :
    ∃ o f, m.get? k = some o ∧ o.owner = none ∧ o.body = .folder f ∧ f.type = t ∧ f.rootType = t := by
  obtain ⟨⟨id, owner, body⟩, ho, hrole⟩ := get?_of_role? (h.top.role hk)
  have hown := ((h.top.mem_iff k).1 (List.mem_map.2 ⟨_, hk, rfl⟩)).2
  rw [owner?_of_get? ho] at hown
  cases body with
  | folder f =>
    obtain ⟨htype, hroot⟩ := Role.folder.inj hrole
    exact ⟨_, f, ho, hown, rfl, htype, hroot⟩
  | _ => cases hrole

/-- What has no owner is a top-level folder. -/
theorem Sound.topLevelFolder?_of_owner (h : m.Sound) (ht : m.TypesExact) {o : Object}
    (ho : m.get? k = some o) (hown : o.owner = none) :
    ∃ t ∈ FolderType.topLevel, m.topLevelFolder? t = some k := by
  have hmem : k ∈ m.topLevelKeys :=
    (h.top.mem_iff k).2 ⟨contains_of_get? ho, (owner?_of_get? ho).trans hown⟩
  obtain ⟨⟨t, k⟩, he, rfl⟩ := List.mem_map.1 hmem
  refine ⟨t, ?_, ht.topLevelFolder?_eq_some.2 he⟩
  rw [← ht]
  exact List.mem_map.2 ⟨_, he, rfl⟩

/-! ## Adding to a top-level folder -/

theorem Sound.requireFolder_topLevel (h : m.Sound) (ht : m.TypesExact)
    (hk : m.topLevelFolder? t = some k) : ∃ o f, m.requireFolder k = .ok (o, f) ∧ f.rootType = t := by
  obtain ⟨o, f, ho, -, hbody, -, hroot⟩ := h.exists_of_topLevel (ht.topLevelFolder?_eq_some.1 hk)
  exact ⟨o, f, requirePart_eq_ok.2 ⟨ho, by rw [hbody]; rfl⟩, hroot⟩

/-- The top-level folder for a category accepts the concepts of the category. -/
theorem Sound.requireAccepting_topLevel (h : m.Sound) (ht : m.TypesExact) (c : Category)
    (what : String) :
    ∃ a, m.topLevelFolder? (.forCategory c) = some a ∧ m.requireAccepting a c what = .ok () := by
  have htype : FolderType.forCategory c ≠ .user :=
    FolderType.mem_topLevel.1 (FolderType.forCategory_mem_topLevel c)
  obtain ⟨a, ha⟩ := ht.exists_folder htype
  obtain ⟨o, f, hf, hroot⟩ := h.requireFolder_topLevel ht ha
  refine ⟨a, ha, ?_⟩
  rw [requireAccepting, hf]
  simp [Folder.accepts, hroot]

/-- With the folder at hand, what is added to it by default is added to it. -/
theorem check_topLevel_apply {α : Type} {f : Model → Except EditError Key} (hf : f m = .ok a)
    (x : Key → Edit α) : (Edit.check f >>= x) m = x a m := by
  rw [Edit.bind_apply, Edit.check_apply, hf]

theorem defaultFolder_apply (ha : m.topLevelFolder? (.forCategory c) = some a) {α : Type}
    (x : Key → Edit α) : (Edit.defaultFolder c >>= x) m = x a m :=
  check_topLevel_apply (by rw [ha]) x

theorem Sound.apply_addElement (h : m.Sound) (ht : m.TypesExact) (type : ElementType)
    (name : String) : ∃ a, m.topLevelFolder? (.forCategory type.category) = some a ∧
      m.apply (.addElement type name) = (.ok (.added m.nextKey),
        m.added a (.concept ⟨.named name, .element type⟩)) := by
  obtain ⟨a, ha, haccepts⟩ := h.requireAccepting_topLevel ht type.category type.label
  refine ⟨a, ha, ?_⟩
  rw [apply, Operation.run, Edit.map_apply, Edit.addElement, defaultFolder_apply ha,
    Edit.addElementIn_apply, haccepts]
  rfl

theorem Sound.apply_addView (h : m.Sound) (ht : m.TypesExact) (name : String) :
    ∃ a, m.topLevelFolder? .views = some a ∧
      m.apply (.addView name) = (.ok (.added m.nextKey), m.added a (.view ⟨.named name⟩)) := by
  obtain ⟨a, ha⟩ := ht.exists_folder (t := .views) (by decide)
  obtain ⟨o, f, hf, hroot⟩ := h.requireFolder_topLevel ht ha
  have hviews : f.isViewFolder = true := by simp [Folder.isViewFolder, hroot]
  refine ⟨a, ha, ?_⟩
  rw [apply, Operation.run, Edit.map_apply, Edit.addView, check_topLevel_apply (by rw [ha]),
    Edit.addViewIn_apply, hf]
  simp [bind, Except.bind, hviews, Edit.commit, pure, Except.pure]

/-- Only the ends decide whether a relationship is added. -/
theorem Sound.apply_addRelationship (h : m.Sound) (ht : m.TypesExact) (type : RelationshipType)
    (source target : Key) : ∃ a, m.topLevelFolder? .relations = some a ∧
      m.apply (.addRelationship type source target) =
        match m.requireConcept source, m.requireConcept target with
        | .ok _, .ok _ => (.ok (.added m.nextKey),
          m.added a (.concept ⟨.named "", .relationship type source target⟩))
        | .error e, _ => (.error e, m)
        | .ok _, .error e => (.error e, m) := by
  obtain ⟨a, ha, haccepts⟩ := h.requireAccepting_topLevel ht .relations type.label
  refine ⟨a, ha, ?_⟩
  rw [apply, Operation.run, Edit.map_apply, Edit.addRelationship, defaultFolder_apply ha,
    Edit.addRelationshipIn_apply, haccepts]
  cases m.requireConcept source with
  | error e => rfl
  | ok first => cases m.requireConcept target <;> rfl

/-- A concept is asked for: it is there, or what is wrong is not a folder. -/
theorem requireConcept_cases (m : Model) (k : Key) :
    (∃ x, m.requireConcept k = .ok x ∧ (m.concept? k).isSome = true) ∨
    ∃ e, m.requireConcept k = .error e ∧ (m.concept? k).isSome = false ∧
      ∀ folder what, e ≠ .folderMismatch folder what := by
  unfold requireConcept requirePart
  cases ho : m.get? k with
  | none =>
    refine .inr ⟨_, rfl, by rw [concept?, ho]; rfl, fun folder what he => ?_⟩
    cases he
  | some o =>
    cases hc : o.body.concept? with
    | none =>
      refine .inr ⟨.wrongKind o.id .concept, by simp [hc], by simp [concept?, ho, hc],
        fun folder what he => ?_⟩
      cases he
    | some c => exact .inl ⟨(o, c), by simp [hc], by simp [concept?, ho, hc]⟩

/-! ## The property -/

/-- In every reachable model the top-level folders are those that models are created with, each without
an owner and of its own type, and all else has an owner.  So an element or a view is always added, a
relationship is added exactly between two concepts, and none of them is ever refused by the folder. -/
theorem Reachable.topLevel_permanent (h : m.Reachable) :
    (∀ t ∈ FolderType.topLevel, ∃ k o f, m.topLevelFolder? t = some k ∧
      (∀ i name, (Model.new i name).topLevelFolder? t = some k) ∧
      m.get? k = some o ∧ o.owner = none ∧ o.body = .folder f ∧ f.type = t ∧ f.rootType = t) ∧
    (∀ k o, m.get? k = some o → o.owner = none →
      ∃ t ∈ FolderType.topLevel, m.topLevelFolder? t = some k) ∧
    (∀ type name, ∃ a, m.topLevelFolder? (.forCategory type.category) = some a ∧
      m.apply (.addElement type name) = (.ok (.added m.nextKey),
        m.added a (.concept ⟨.named name, .element type⟩))) ∧
    (∀ name, ∃ a, m.topLevelFolder? .views = some a ∧
      m.apply (.addView name) = (.ok (.added m.nextKey), m.added a (.view ⟨.named name⟩))) ∧
    (∀ type source target,
      (∃ answer, (m.apply (.addRelationship type source target)).1 = .ok answer) ↔
        (m.concept? source).isSome = true ∧ (m.concept? target).isSome = true) ∧
    ∀ op, (∃ type name, op = .addElement type name) ∨ (∃ name, op = .addView name) ∨
        (∃ type source target, op = .addRelationship type source target) →
      ∀ folder what, (m.apply op).1 ≠ .error (.folderMismatch folder what) := by
  have hs := h.sound
  have ht := h.topLevel_types
  refine ⟨fun t hmem => ?_, fun k o ho hown => hs.topLevelFolder?_of_owner ht ho hown,
    hs.apply_addElement ht, hs.apply_addView ht, fun type source target => ?_, fun op hop folder what => ?_⟩
  · obtain ⟨k, hk⟩ := TypesExact.exists_folder ht (FolderType.mem_topLevel.1 hmem)
    obtain ⟨o, f, hfolder⟩ := hs.exists_of_topLevel (TypesExact.topLevelFolder?_eq_some ht |>.1 hk)
    refine ⟨k, o, f, hk, fun i name => ?_, hfolder⟩
    rw [topLevelFolder?, ← h.topLevel_eq i name]
    exact hk
  · obtain ⟨a, -, happly⟩ := hs.apply_addRelationship ht type source target
    rw [happly]
    rcases m.requireConcept_cases source with ⟨x, hx, hsource⟩ | ⟨e, he, hsource, -⟩
    · rcases m.requireConcept_cases target with ⟨y, hy, htarget⟩ | ⟨e, he, htarget, -⟩
      · simp [hx, hy, hsource, htarget]
      · simp [hx, he, htarget]
    · simp [he, hsource]
  · rcases hop with ⟨type, name, rfl⟩ | ⟨name, rfl⟩ | ⟨type, source, target, rfl⟩
    · obtain ⟨a, -, happly⟩ := hs.apply_addElement ht type name
      rw [happly]
      intro he
      cases he
    · obtain ⟨a, -, happly⟩ := hs.apply_addView ht name
      rw [happly]
      intro he
      cases he
    · obtain ⟨a, -, happly⟩ := hs.apply_addRelationship ht type source target
      rw [happly]
      rcases m.requireConcept_cases source with ⟨x, hx, -⟩ | ⟨e, he, -, hnot⟩
      · rcases m.requireConcept_cases target with ⟨y, hy, -⟩ | ⟨e, he, -, hnot⟩
        · simp [hx, hy]
        · simpa [hx, he] using hnot folder what
      · simpa [he] using hnot folder what

/-- A top-level folder cannot be moved, and outlives a folder that is removed from it with what it holds:
under its old key it still takes an element. -/
theorem topLevel_permanent_cleared :
    let business : Key := ⟨1, 2⟩
    let inner := (new 1 "Plan").nextKey
    let m₁ := ((new 1 "Plan").apply (.addFolder business "Actors")).2
    let m₂ := (m₁.apply (.addElementIn inner .businessActor "Buyer")).2
    let m₃ := (m₂.apply (.moveTo business inner)).2
    let n := (m₃.apply (.remove inner)).2
    n.Reachable ∧ n.topLevelFolder? .business = some business ∧
      (∃ f, n.folder? business = some f ∧ f.type = .business) ∧
      n.apply (.addElement .businessRole "Seller") = (.ok (.added n.nextKey),
        n.added business (.concept ⟨.named "Seller", .element .businessRole⟩)) := by
  intro business inner m₁ m₂ m₃ n
  have hn : n.Reachable :=
    .step (.step (.step (.step (.new 1 "Plan") (.apply _)) (.apply _)) (.apply _)) (.apply _)
  obtain ⟨hfolders, -, helement, -⟩ := hn.topLevel_permanent
  obtain ⟨k, o, f, hk, hnew, ho, -, hbody, htype, -⟩ := hfolders .business (by decide)
  obtain rfl : business = k := Option.some.inj (hnew 1 "Plan")
  obtain ⟨a, ha, happly⟩ := helement .businessRole "Seller"
  obtain rfl : business = a := Option.some.inj (hk.symm.trans ha)
  exact ⟨hn, hk, ⟨f, by rw [folder?_of_get? ho, hbody]; rfl, htype⟩, happly⟩

end ModelLabels.Model
