import ModelLabels.Model.Operation
import ModelLabels.Proofs.Change
import ModelLabels.Proofs.Checks
/-! # Operations as a check and a change

Every operation first looks at the model and then, if it is not refused, makes one change that cannot
fail.

* `Edit.commit`: the outcome of a check that is followed by a change.
* `addFolder_apply`, …, `remove_apply`: each operation is equal to one.
-/

namespace ModelLabels
set_option autoImplicit false

namespace Edit

/-- The outcome of a check that is followed by a change. -/
def commit {α β : Type} (checked : Except EditError α) (m : Model) (change : α → β × Model) :
    EStateM.Result EditError Model β :=
  match checked with
  | .ok a => .ok (change a).1 (change a).2
  | .error e => .error e m

section Commit
variable {α β γ : Type} {m n : Model}

theorem commit_eq_ok {checked : Except EditError α} {change : α → β × Model} {b : β} :
    commit checked m change = .ok b n ↔ ∃ a, checked = .ok a ∧ change a = (b, n) := by
  cases checked with
  | ok a => simp [commit, Prod.ext_iff]
  | error e => simp [commit]

theorem commit_eq_error {checked : Except EditError α} {change : α → β × Model} {e : EditError} :
    commit checked m change = .error e n ↔ checked = .error e ∧ n = m := by
  cases checked with
  | ok a => simp [commit]
  | error e => simp [commit, eq_comm]

theorem check_then_apply {f : Model → Except EditError α} {x : α → Edit β}
    {change : α → β × Model} (h : ∀ a, f m = .ok a → x a m = .ok (change a).1 (change a).2) :
    (check f >>= x) m = commit (f m) m change := by
  rw [bind_apply, check_apply]
  cases ha : f m with
  | ok a => exact h a ha
  | error e => rfl

/-- A check in front of a committed change is one more check. -/
theorem check_bind_apply {f : Model → Except EditError α} {g : α → Except EditError β}
    {x : α → Edit γ} {change : β → γ × Model} (h : ∀ a, f m = .ok a → x a m = commit (g a) m change) :
    (check f >>= x) m = commit (f m >>= g) m change := by
  rw [bind_apply, check_apply]
  cases ha : f m with
  | ok a => exact h a ha
  | error e => rfl

theorem ite_throw_apply {p : Prop} [Decidable p] {e : EditError} {a : α} {x : Edit β}
    {change : α → β × Model} (h : p → x m = .ok (change a).1 (change a).2) :
    (if p then x else throw e) m = commit (if p then return a else throw e) m change := by
  by_cases hp : p
  · rw [if_pos hp, if_pos hp, h hp]
    rfl
  · rw [if_neg hp, if_neg hp]
    rfl

theorem check_bind_eq_ok {f : Model → Except EditError α} {x : α → Edit β} {b : β} :
    (check f >>= x) m = .ok b n ↔ ∃ a, f m = .ok a ∧ x a m = .ok b n := by
  rw [bind_apply, check_apply]
  cases f m with
  | ok a => simp
  | error e => simp

theorem check_bind_eq_error {f : Model → Except EditError α} {x : α → Edit β} {e : EditError} :
    (check f >>= x) m = .error e n ↔
      (f m = .error e ∧ n = m) ∨ ∃ a, f m = .ok a ∧ x a m = .error e n := by
  rw [bind_apply, check_apply]
  cases f m with
  | ok a => simp
  | error e => simp [eq_comm]

theorem map_apply (f : α → β) (x : Edit α) (m : Model) :
    (f <$> x) m = match x m with
      | .ok a n => .ok (f a) n
      | .error e n => .error e n := by
  rw [← bind_pure_comp, bind_apply]
  rfl

end Commit

/-! ### Adding -/

theorem create_bump_apply {owner : Key} {body : Body} {m : Model}
    (h : body.links m.nextKey = []) :
    (do
      let key ← create (some owner) body
      bump
      return key : Edit Key) m = .ok m.nextKey (m.added owner body) := by
  simp only [bind_apply, create_apply, bump_apply, pure_apply, Model.create_fst, Model.create_eq h]
  rfl

variable (m : Model)

theorem addFolder_apply (parent : Key) (name : String) :
    addFolder parent name m = commit (m.requireFolder parent) m fun a =>
      (m.nextKey, m.added parent (.folder ⟨.named name, .user, a.2.rootType⟩)) :=
  check_then_apply fun _ _ => create_bump_apply rfl

theorem addElementIn_apply (folder : Key) (type : ElementType) (name : String) :
    addElementIn folder type name m =
      commit (m.requireAccepting folder type.category type.label) m fun _ =>
        (m.nextKey, m.added folder (.concept ⟨.named name, .element type⟩)) :=
  check_then_apply fun _ _ => create_bump_apply rfl

theorem addRelationshipIn_apply (folder : Key) (type : RelationshipType) (source target : Key) :
    addRelationshipIn folder type source target m =
      commit (do
        m.requireAccepting folder .relations type.label
        let _ ← m.requireConcept source
        m.requireConcept target) m fun _ =>
          (m.nextKey, m.added folder (.concept ⟨.named "", .relationship type source target⟩)) := by
  refine check_bind_apply fun _ _ => check_bind_apply fun _ _ => check_then_apply fun _ _ => ?_
  simp only [bind_apply, create_apply, link_apply, bump_apply, pure_apply, Model.create_fst,
    Model.link_eq, Model.linked_linked]
  rw [Model.added, ← Model.create_linked]
  rfl

theorem addViewIn_apply (folder : Key) (name : String) :
    addViewIn folder name m =
      commit (do
        let (holder, f) ← m.requireFolder folder
        if f.isViewFolder then return () else throw (.folderMismatch holder.id "a view")) m fun _ =>
          (m.nextKey, m.added folder (.view ⟨.named name⟩)) :=
  check_bind_apply fun _ _ => ite_throw_apply fun _ => create_bump_apply rfl

theorem addDiagramObject_apply (container : Key) (shows : Shown) :
    addDiagramObject container shows m = commit (m.requireContainer container) m fun a =>
      (m.nextKey, m.added container (.diagramObject ⟨shows, a.2⟩)) := by
  refine check_then_apply fun _ _ => ?_
  simp only [Model.added, ← Model.create_linked, Body.links_diagramObject]
  cases shows.subject? with
  | none =>
    simp only [bind_apply, create_apply, bump_apply, pure_apply, Model.create_fst,
      Option.toList_none, List.map_nil, Model.linked_nil]
  | some subject =>
    simp only [bind_apply, create_apply, link_apply, bump_apply, pure_apply, Model.create_fst,
      Model.link_eq]
    rfl

theorem addLine_apply (relationship : Option Key) (source target : Key) :
    addLine relationship source target m =
      commit (do
        let (first, view) ← m.requireComponent source
        let (second, otherView) ← m.requireComponent target
        if view = otherView then return view
        else throw (.viewMismatch first.id second.id)) m fun view =>
          (m.nextKey, m.added view (.connection ⟨⟨"", ""⟩, relationship, source, target, true⟩)) := by
  refine check_bind_apply fun _ _ => check_bind_apply fun _ _ => ite_throw_apply fun _ => ?_
  simp only [Model.added, ← Model.create_linked, Body.links]
  cases relationship with
  | none =>
    simp only [bind_apply, create_apply, link_apply, bump_apply, pure_apply, Model.create_fst,
      Model.link_eq, Model.linked_linked]
    rfl
  | some r =>
    simp only [bind_apply, create_apply, link_apply, bump_apply, pure_apply, Model.create_fst,
      Model.link_eq, Model.linked_linked]
    rfl

/-! ### Attaching and detaching -/

theorem disconnect_apply (k : Key) :
    disconnect k m = commit (m.requireConnection k) m fun a =>
      ((), if a.2.isConnected then m.detached k else m) := by
  refine check_then_apply fun a ha => ?_
  have hk : m.get? k = some a.1 := (Model.requirePart_eq_ok.1 ha).1
  cases h : a.2.isConnected with
  | false =>
    simp only [h, Bool.false_eq_true, if_false]
    rfl
  | true =>
    simp only [h, if_true, bind_apply, modify_apply]
    have hk' : ((m.unlinkFrom .source k).unlinkFrom .target k).get? k = some a.1 := hk
    exact update_apply hk' _

theorem reconnect_apply (k : Key) :
    reconnect k m =
      commit (do
        let (_, c) ← m.requireConnection k
        if c.isConnected then return c
        else
          let _ ← m.requireComponent c.source
          let _ ← m.requireComponent c.target
          return c) m fun c => ((), if c.isConnected then m else m.reattached k c) := by
  refine check_bind_apply fun a ha => ?_
  have hk : m.get? k = some a.1 := (Model.requirePart_eq_ok.1 ha).1
  cases h : a.2.isConnected with
  | true =>
    simp only [h, if_true]
    simp [commit, pure, Except.pure, h]
    rfl
  | false =>
    simp only [h, Bool.false_eq_true, if_false]
    refine check_bind_apply fun _ _ => check_bind_apply fun _ _ => ?_
    simp only [bind_apply, link_apply, commit, pure, Except.pure, h, Bool.false_eq_true, if_false]
    have hk' : ((m.link .source k a.2.source).link .target k a.2.target).get? k = some a.1 := hk
    exact update_apply hk' _

/-! ### Describing -/

theorem revise_apply (k : Key) (expected : Requirement) (change? : Body → Option Body) :
    revise k expected change? m = commit (m.requirePart k expected (change? ·.body)) m fun a =>
      ((), m.update k fun o => { o with body := a.2 }) := by
  rw [revise, bind_apply, check_apply]
  unfold Model.require Model.requirePart
  cases hk : m.get? k with
  | none => rfl
  | some o =>
    cases hb : change? o.body with
    | none =>
      simp [hb]
      rfl
    | some body =>
      simp [hb, update_apply hk]
      rfl

theorem setId_apply (k : Key) (id : String) :
    setId k id m =
      commit (do
        if id = "" then throw .emptyId
        else
          let o ← m.require k
          if o.id = id then return o
          else if id ∈ m.usedIds then throw (.duplicateId id)
          else return o) m fun o => ((), if o.id = id then m else m.renamed k o.id id) := by
  unfold setId
  by_cases hempty : id = ""
  · simp only [if_pos hempty]
    rfl
  simp only [if_neg hempty]
  refine check_bind_apply fun o ho => ?_
  by_cases hsame : o.id = id
  · simp only [if_pos hsame, commit, pure, Except.pure]
    rfl
  simp only [if_neg hsame, bind_apply, get_apply]
  by_cases hused : id ∈ m.usedIds
  · simp only [if_pos hused]
    rfl
  have hk : ((m.releaseId o.id).reserveId id).get? k = some o := Model.require_eq_ok.1 ho
  simp only [if_neg hused, bind_apply, modify_apply, update_apply hk, bump_apply, commit, pure,
    Except.pure, if_neg hsame]
  rfl

/-! ### Moving and removing -/

theorem moveTo_apply (k parent : Key) :
    moveTo k parent m = commit (m.checkMove k parent) m fun _ => ((), m.moved k parent) := by
  refine check_then_apply fun _ h => ?_
  obtain ⟨o, ho, -⟩ := Model.of_checkMove h
  have hk : (m.unlinkTo .contains k).get? k = some o := ho
  simp only [bind_apply, modify_apply, update_apply hk, link_apply, bump_apply]
  rfl

theorem remove_apply (k : Key) :
    remove k m =
      commit (do
        let o ← m.require k
        if o.isTopLevel then throw (.topLevelFolder o.id) else return ()) m fun _ =>
          ((m.doomed k).length, m.cleared (m.doomed k)) := by
  refine check_bind_apply fun o _ => ?_
  by_cases h : o.isTopLevel
  · simp only [if_pos h]
    rfl
  · simp only [if_neg h, bind_apply, get_apply, modify_apply, bump_apply]
    rfl

end Edit

end ModelLabels
