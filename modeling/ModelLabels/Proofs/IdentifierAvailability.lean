import ModelLabels.Proofs.IdentifierIndex
import ModelLabels.Proofs.Removal
/-! # Which identifiers are free

An identifier can be given to an object unless it is empty, or that of the model or of another object.
Identifiers that were given up are free again, whether their object got another one or is gone.

* `Model.Taken`: the identifiers that an object cannot have because of others.
* `Model.apply_setId`: what giving an object an identifier comes to.
* `Sound.setId_done`: a free identifier can be given.
* `Reachable.setId_exact`: the property.
-/

namespace ModelLabels.Model
set_option autoImplicit false

variable {m n : Model} {k l : Key} {o : Object} {id : String}

/-- Whether an identifier is that of the model or of an object other than a given one. -/
def Taken (m : Model) (k : Key) (id : String) : Prop :=
  id = m.id ∨ ∃ l o, l ≠ k ∧ m.get? l = some o ∧ o.id = id

theorem mem_usedIds_of_taken (h : m.IdsExact) (ht : m.Taken k id) : id ∈ m.usedIds := by
  rw [h.mem_usedIds]
  rcases ht with hid | ⟨l, o, -, ho, hid⟩
  · exact .inl hid
  · exact .inr ⟨l, idOf?_eq_some_iff.2 ⟨o, ho, hid⟩⟩

/-- What is in use is taken, unless it is the object's own identifier. -/
theorem taken_iff (h : m.IdsExact) (ho : m.get? k = some o) :
    m.Taken k id ↔ o.id ≠ id ∧ id ∈ m.usedIds := by
  constructor
  · intro ht
    refine ⟨?_, mem_usedIds_of_taken h ht⟩
    rintro rfl
    rcases ht with hid | ⟨l, p, hne, hp, hid⟩
    · exact h.distinct.ne_model k o ho hid
    · exact hne (h.distinct.injective l k p o hp ho hid)
  · rintro ⟨hne, hused⟩
    rcases (h.mem_usedIds id).1 hused with hid | ⟨l, hl⟩
    · exact .inl hid
    · obtain ⟨p, hp, hid⟩ := idOf?_eq_some_iff.1 hl
      refine .inr ⟨l, p, ?_, hp, hid⟩
      rintro rfl
      rw [ho] at hp
      cases hp
      exact hne hid

/-! ## Giving an identifier -/

theorem apply_setId (m : Model) (k : Key) (id : String) :
    m.apply (.setId k id) =
      if id = "" then (.error .emptyId, m)
      else match m.get? k with
        | none => (.error (.unknownKey k), m)
        | some o =>
          if o.id = id then (.ok .done, m)
          else if id ∈ m.usedIds then (.error (.duplicateId id), m)
          else (.ok .done, m.renamed k o.id id) := by
  rw [apply, Operation.run, Edit.map_apply, Edit.setId_apply, require]
  by_cases hempty : id = ""
  · simp only [if_pos hempty]
    rfl
  simp only [if_neg hempty]
  cases m.get? k with
  | none => rfl
  | some o =>
    by_cases hsame : o.id = id
    · simp [hsame, bind, Except.bind, pure, Except.pure, Edit.commit]
    · by_cases hused : id ∈ m.usedIds
      · simp [hsame, hused, bind, Except.bind, throw, throwThe, MonadExceptOf.throw, Edit.commit]
      · simp [hsame, hused, bind, Except.bind, pure, Except.pure, Edit.commit]

theorem apply_setId_of_get? (ho : m.get? k = some o) (hid : id ≠ "") :
    m.apply (.setId k id) =
      if o.id = id then (.ok .done, m)
      else if id ∈ m.usedIds then (.error (.duplicateId id), m)
      else (.ok .done, m.renamed k o.id id) := by
  rw [apply_setId, if_neg hid, ho]

theorem get?_renamed (ho : m.get? k = some o) (l : Key) :
    (m.renamed k o.id id).get? l = if l = k then some { o with id } else m.get? l :=
  get?_update_of_get? ho _ l

/-- An identifier that is not in use can be given to any object. -/
theorem setId_of_not_mem (hl : m.contains l = true) (hid : id ≠ "") (hused : id ∉ m.usedIds) :
    (m.apply (.setId l id)).1 = .ok .done := by
  obtain ⟨p, hp⟩ := contains_iff_get?.1 hl
  rw [apply_setId_of_get? hp hid, if_neg hused]
  split <;> rfl

theorem old_not_mem_usedIds (hne : o.id ≠ id) : o.id ∉ (m.renamed k o.id id).usedIds := by
  show o.id ∉ id :: m.usedIds.filter (· ≠ o.id)
  simp [hne]

theorem id_not_mem_usedIds_cleared {ks : List Key} (hk : k ∈ ks) (ho : m.get? k = some o) :
    o.id ∉ (m.cleared ks).usedIds := fun hmem =>
  (mem_usedIds_cleared.1 hmem).2 k hk (idOf?_eq_some_iff.2 ⟨o, ho, rfl⟩)

/-- An identifier that is not taken is given: the object has it, no other object changes, and the one
that the object had before is free. -/
theorem IdsExact.setId_done (h : m.IdsExact) (ho : m.get? k = some o) (hid : id ≠ "")
    (hfree : ¬ m.Taken k id) :
    ∃ n, m.apply (.setId k id) = (.ok .done, n) ∧ n.get? k = some { o with id } ∧
      (∀ l, l ≠ k → n.get? l = m.get? l) ∧
      (o.id ≠ id → ∀ l, l ≠ k → n.contains l = true → (n.apply (.setId l o.id)).1 = .ok .done) := by
  have hunused (hne : o.id ≠ id) : id ∉ m.usedIds := fun hused =>
    hfree ((taken_iff h ho).2 ⟨hne, hused⟩)
  by_cases hsame : o.id = id
  · subst hsame
    refine ⟨m, ?_, ho, fun _ _ => rfl, fun hne => absurd rfl hne⟩
    rw [apply_setId_of_get? ho hid, if_pos rfl]
  · refine ⟨m.renamed k o.id id, ?_, ?_, fun l hl => ?_, fun _ l _ hlive => ?_⟩
    · rw [apply_setId_of_get? ho hid, if_neg hsame, if_neg (hunused hsame)]
    · exact (get?_renamed ho k).trans (if_pos rfl)
    · exact (get?_renamed ho l).trans (if_neg hl)
    · exact setId_of_not_mem hlive (h.distinct.ne_empty k o ho) (old_not_mem_usedIds hsame)

/-- Whatever is refused is refused for the first of three reasons that applies. -/
theorem IdsExact.setId_refused (h : m.IdsExact) (k : Key) (id : String) :
    ((m.apply (.setId k id)).1 = .error .emptyId ↔ id = "") ∧
    (id ≠ "" → ((m.apply (.setId k id)).1 = .error (.unknownKey k) ↔ m.contains k = false)) ∧
    (id ≠ "" → m.contains k = true →
      ((m.apply (.setId k id)).1 = .error (.duplicateId id) ↔ m.Taken k id)) := by
  rw [apply_setId, contains, Store.contains, ← get?]
  by_cases hempty : id = ""
  · simp [hempty]
  · rw [if_neg hempty]
    cases ho : m.get? k with
    | none => simp [hempty]
    | some o =>
      rw [taken_iff h ho]
      by_cases hsame : o.id = id
      · simp [hempty, hsame]
      · by_cases hused : id ∈ m.usedIds <;> simp [hempty, hsame, hused]

/-! ## Identifiers of new objects -/

/-- An object that is added has an identifier that was not in use. -/
theorem Sound.added_id (h : m.Sound) {op : Operation} {key : Key}
    (hadd : m.apply op = (.ok (.added key), n)) :
    ∃ o, n.get? key = some o ∧ o.id ≠ "" ∧ o.id ∉ m.usedIds := by
  cases op.effect_of_run (run_of_apply hadd) with
  | @added p b hfit =>
    refine ⟨⟨m.freshId.1, some p, b⟩, ?_, idText_ne_empty _, m.freshId_not_mem⟩
    exact (get?_inserted h.slots (some p) b m.nextKey).trans (if_pos rfl)

/-! ## The property -/

/-- In every reachable model an identifier is refused to an object if it is empty, if there is no such
object, or if the model or another object has it, and for no other reason.  An identifier that was given
up is free again, no matter whether its object got another one or is gone, and an object that is added
gets one that neither the model nor any object has. -/
theorem Reachable.setId_exact (h : m.Reachable) :
    (∀ k id,
      ((m.apply (.setId k id)).1 = .error .emptyId ↔ id = "") ∧
      (id ≠ "" → ((m.apply (.setId k id)).1 = .error (.unknownKey k) ↔ m.contains k = false)) ∧
      (id ≠ "" → m.contains k = true →
        ((m.apply (.setId k id)).1 = .error (.duplicateId id) ↔ m.Taken k id))) ∧
    (∀ k o id, m.get? k = some o → id ≠ "" → ¬ m.Taken k id →
      ∃ n, m.apply (.setId k id) = (.ok .done, n) ∧ n.get? k = some { o with id } ∧
        (∀ l, l ≠ k → n.get? l = m.get? l) ∧
        (o.id ≠ id → ∀ l, l ≠ k → n.contains l = true →
          (n.apply (.setId l o.id)).1 = .ok .done)) ∧
    (∀ k ks, m.contains k = true → k ∉ m.topLevelKeys → ks.Perm (m.doomed k) →
      (m.apply (.remove k)).1 = .ok (.removed ks.length) ∧
      ∀ x ∈ ks, ∃ o, m.get? x = some o ∧ ∀ l, (m.cleared ks).contains l = true →
        ((m.cleared ks).apply (.setId l o.id)).1 = .ok .done) ∧
    (∀ op key n, m.apply op = (.ok (.added key), n) → ∃ o, n.get? key = some o ∧ o.id ≠ "" ∧
      o.id ≠ m.id ∧ ∀ l p, m.get? l = some p → p.id ≠ o.id) ∧
    m.IdsDistinct := by
  have hs := h.sound
  have hids : m.IdsExact := hs.ids
  refine ⟨hids.setId_refused, fun k o id ho hid hfree => hids.setId_done ho hid hfree, ?_, ?_,
    hids.distinct⟩
  · intro k ks hk htop hks
    refine ⟨?_, fun x hx => ?_⟩
    · rw [apply_remove hs hk htop, hks.length_eq]
    · obtain ⟨o, ho⟩ := contains_iff_get?.1 (contains_of_mem_doomed (hks.mem_iff.1 hx))
      refine ⟨o, ho, fun l hl => ?_⟩
      exact setId_of_not_mem hl (hids.distinct.ne_empty x o ho) (id_not_mem_usedIds_cleared hx ho)
  · intro op key n hadd
    obtain ⟨o, ho, hne, hfresh⟩ := hs.added_id hadd
    refine ⟨o, ho, hne, fun hid => ?_, fun l p hp hid => ?_⟩
    · exact hfresh ((hids.mem_usedIds _).2 (.inl hid))
    · exact hfresh ((hids.mem_usedIds _).2 (.inr ⟨l, idOf?_eq_some_iff.2 ⟨p, hp, hid⟩⟩))

/-- A view that goes with its folder leaves its identifier to another object; an identifier that is in
use is refused. -/
theorem setId_exact_cleared :
    let views : Key := ⟨8, 9⟩
    let folder := (new 1 "Plan").nextKey
    let m₁ := ((new 1 "Plan").apply (.addFolder views "Maps")).2
    let view := m₁.nextKey
    let m₂ := (m₁.apply (.addViewIn folder "Map")).2
    let m := (m₂.apply (.setId view "map")).2
    let n := (m.apply (.remove folder)).2
    m.Reachable ∧ (m.apply (.setId folder "map")).1 = .error (.duplicateId "map") ∧
      (n.apply (.setId views "map")).1 = .ok .done ∧
      (n.apply (.setId view "map")).1 = .error (.unknownKey view) := by
  intro views folder m₁ view m₂ m n
  have hm : m.Reachable :=
    .step (.step (.step (.new 1 "Plan") (.apply _)) (.apply _)) (.apply _)
  have hn : n.Reachable := .step hm (.apply _)
  have hfolder : m.contains folder = true := by decide +kernel
  have htop : folder ∉ m.topLevelKeys := by decide +kernel
  have hview : m.get? view = some ⟨"map", some folder, .view ⟨.named "Map"⟩⟩ := by decide +kernel
  obtain ⟨hrefused, -, hremoved, -, -⟩ := hm.setId_exact
  obtain ⟨hrefused', -⟩ := hn.setId_exact
  have hmem : view ∈ m.doomed folder := by
    refine (hm.sound.doomed_least hfolder).1.2 _ folder (hm.sound.doomed_least hfolder).1.1 ?_
    exact .owned (owner?_of_get? hview)
  have hclear : n = m.cleared (m.doomed folder) :=
    congrArg Prod.snd (apply_remove hm.sound hfolder htop)
  have hgone : n.contains view = false := by
    rw [hclear]
    exact congrArg Option.isSome ((m.get?_cleared _ view).trans (if_pos hmem))
  have htaken : m.Taken folder "map" := .inr ⟨view, _, by decide, hview, rfl⟩
  have hviews : (m.cleared (m.doomed folder)).contains views = true :=
    ((hm.remove_doomed hfolder htop).2.2 _ (.refl _)).topLevel.2 views (by decide +kernel)
  obtain ⟨-, hfree⟩ := hremoved folder _ hfolder htop (.refl _)
  obtain ⟨o, ho, hset⟩ := hfree view hmem
  rw [hview] at ho
  cases ho
  refine ⟨hm, ((hrefused folder "map").2.2 (by decide) hfolder).2 htaken, ?_,
    ((hrefused' view "map").2.1 (by decide)).2 hgone⟩
  rw [hclear]
  exact hset views hviews

end ModelLabels.Model
