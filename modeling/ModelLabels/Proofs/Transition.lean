import ModelLabels.Proofs.Effect
/-! # Steps and reachable states

An operation that is refused leaves the model as it was; one that is accepted has an effect.

* `Edit.IsAtomic`: a refused edit changes nothing; `Operation.isAtomic_run`: all operations.
* `Model.Step`, `Model.Reachable`: the states that models get into.  A removal may free the slots of
  what it removes in any order.
-/

namespace ModelLabels
set_option autoImplicit false

/-! ## Refused operations -/

namespace Edit

/-- A refused edit leaves the model as it was. -/
def IsAtomic {α : Type} (x : Edit α) : Prop := ∀ m n e, x m = .error e n → n = m

theorem isAtomic_of_commit {α β : Type} {x : Edit β} {f : Model → Except EditError α}
    {change : Model → α → β × Model} (h : ∀ m, x m = commit (f m) m (change m)) : x.IsAtomic := by
  intro m n e he
  rw [h] at he
  exact (commit_eq_error.1 he).2

theorem IsAtomic.check_bind {α β : Type} {f : Model → Except EditError α} {x : α → Edit β}
    (h : ∀ a, (x a).IsAtomic) : (check f >>= x).IsAtomic := by
  intro m n e he
  rcases check_bind_eq_error.1 he with ⟨-, hn⟩ | ⟨a, -, ha⟩
  · exact hn
  · exact h a m n e ha

theorem isAtomic_throw {α : Type} (e : EditError) : (throw e : Edit α).IsAtomic := by
  intro m n e h
  cases h
  rfl

theorem IsAtomic.map {α β : Type} {x : Edit α} (f : α → β) (h : x.IsAtomic) :
    (f <$> x).IsAtomic := by
  intro m n e he
  rw [map_apply] at he
  cases hx : x m with
  | ok a p =>
    rw [hx] at he
    cases he
  | error d p =>
    rw [hx] at he
    cases he
    exact h m _ _ hx

theorem isAtomic_addElementIn (folder : Key) (type : ElementType) (name : String) :
    (addElementIn folder type name).IsAtomic :=
  isAtomic_of_commit fun m => addElementIn_apply m folder type name

theorem isAtomic_addRelationshipIn (folder : Key) (type : RelationshipType) (source target : Key) :
    (addRelationshipIn folder type source target).IsAtomic :=
  isAtomic_of_commit fun m => addRelationshipIn_apply m folder type source target

theorem isAtomic_addViewIn (folder : Key) (name : String) : (addViewIn folder name).IsAtomic :=
  isAtomic_of_commit fun m => addViewIn_apply m folder name

theorem isAtomic_addDiagramObject (container : Key) (shows : Shown) :
    (addDiagramObject container shows).IsAtomic :=
  isAtomic_of_commit fun m => addDiagramObject_apply m container shows

theorem isAtomic_addLine (relationship : Option Key) (source target : Key) :
    (addLine relationship source target).IsAtomic :=
  isAtomic_of_commit fun m => addLine_apply m relationship source target

theorem isAtomic_revise (k : Key) (expected : Requirement) (change? : Body → Option Body) :
    (revise k expected change?).IsAtomic :=
  isAtomic_of_commit fun m => revise_apply m k expected change?

theorem isAtomic_addElementObject (container concept : Key) :
    (addElementObject container concept).IsAtomic := by
  refine IsAtomic.check_bind fun a => ?_
  by_cases h : a.2.kind.isRelationship = true
  · simpa only [h, if_true] using isAtomic_throw _
  · simpa only [h, Bool.false_eq_true, if_false] using isAtomic_addDiagramObject _ _

theorem isAtomic_addRelationshipConnection (relationship source target : Key) :
    (addRelationshipConnection relationship source target).IsAtomic := by
  refine IsAtomic.check_bind fun a => ?_
  by_cases h : a.2.kind.isRelationship = true
  · simpa only [h, if_true] using isAtomic_addLine _ _ _
  · simpa only [h, Bool.false_eq_true, if_false] using isAtomic_throw _

end Edit

namespace Operation

theorem isAtomic_run (op : Operation) : op.run.IsAtomic := by
  cases op with
  | addFolder parent name =>
    exact (Edit.isAtomic_of_commit fun m => Edit.addFolder_apply m parent name).map _
  | addElement type name =>
    exact (Edit.IsAtomic.check_bind fun _ => Edit.isAtomic_addElementIn _ _ _).map _
  | addElementIn folder type name => exact (Edit.isAtomic_addElementIn _ _ _).map _
  | addRelationship type source target =>
    exact (Edit.IsAtomic.check_bind fun _ => Edit.isAtomic_addRelationshipIn _ _ _ _).map _
  | addRelationshipIn folder type source target =>
    exact (Edit.isAtomic_addRelationshipIn _ _ _ _).map _
  | addView name => exact (Edit.IsAtomic.check_bind fun _ => Edit.isAtomic_addViewIn _ _).map _
  | addViewIn folder name => exact (Edit.isAtomic_addViewIn _ _).map _
  | addElementObject container concept => exact (Edit.isAtomic_addElementObject _ _).map _
  | addNote container content => exact (Edit.isAtomic_addDiagramObject _ _).map _
  | addGroup container name => exact (Edit.isAtomic_addDiagramObject _ _).map _
  | addReference container view =>
    exact (Edit.IsAtomic.check_bind fun _ => Edit.isAtomic_addDiagramObject _ _).map _
  | addConnection source target => exact (Edit.isAtomic_addLine _ _ _).map _
  | addRelationshipConnection relationship source target =>
    exact (Edit.isAtomic_addRelationshipConnection _ _ _).map _
  | disconnect key =>
    exact (Edit.isAtomic_of_commit fun m => Edit.disconnect_apply m key).map _
  | reconnect key => exact (Edit.isAtomic_of_commit fun m => Edit.reconnect_apply m key).map _
  | setName key name =>
    exact (Edit.IsAtomic.check_bind fun _ => Edit.isAtomic_revise _ _ _).map _
  | setDocumentation key documentation =>
    exact (Edit.IsAtomic.check_bind fun _ => Edit.isAtomic_revise _ _ _).map _
  | setProperty key property value =>
    exact (Edit.IsAtomic.check_bind fun _ => Edit.isAtomic_revise _ _ _).map _
  | setContent key content => exact (Edit.isAtomic_revise _ _ _).map _
  | setId key id => exact (Edit.isAtomic_of_commit fun m => Edit.setId_apply m key id).map _
  | moveTo key parent =>
    exact (Edit.isAtomic_of_commit fun m => Edit.moveTo_apply m key parent).map _
  | remove key => exact (Edit.isAtomic_of_commit fun m => Edit.remove_apply m key).map _
  | rename name => exact Edit.IsAtomic.map _ fun _ _ _ h => nomatch h
  | setModelDocumentation documentation => exact Edit.IsAtomic.map _ fun _ _ _ h => nomatch h
  | setModelProperty property value => exact Edit.IsAtomic.map _ fun _ _ _ h => nomatch h

end Operation

/-! ## Steps and reachable states -/

namespace Model
variable {m n : Model}

theorem effect_apply (m : Model) (op : Operation) :
    (m.apply op).2 = m ∨ ∃ answer, m.Effect answer (m.apply op).2 := by
  unfold apply
  cases h : op.run m with
  | ok answer n => exact .inr ⟨answer, op.effect_of_run h⟩
  | error e n => exact .inl (op.isAtomic_run m n e h)

theorem run_of_apply {op : Operation} {answer : Operation.Answer}
    (h : m.apply op = (.ok answer, n)) : op.run m = .ok answer n := by
  unfold apply at h
  cases hrun : op.run m with
  | ok a p =>
    rw [hrun] at h
    cases h
    rfl
  | error e p =>
    rw [hrun] at h
    cases h

/-- One state follows another: by an operation, or by a removal that takes the objects that go in
any order. -/
inductive Step (m : Model) : Model → Prop where
  | apply (op : Operation) : m.Step (m.apply op).2
  | clear {k : Key} {o : Object} {ks : List Key} (ho : m.get? k = some o)
      (htop : o.isTopLevel = false) (hks : ks.Perm (m.doomed k)) : m.Step (m.cleared ks)

/-- The states that models get into. -/
inductive Reachable : Model → Prop where
  | new (instanceNumber : Nat) (name : String) : Reachable (new instanceNumber name)
  | copy {m : Model} (instanceNumber : Nat) (h : Reachable m) : Reachable (m.copy instanceNumber)
  | step {m n : Model} (h : Reachable m) (hs : m.Step n) : Reachable n

theorem Step.eq_or_effect (h : m.Step n) : n = m ∨ ∃ answer, m.Effect answer n := by
  cases h with
  | apply op => exact m.effect_apply op
  | clear ho htop hks => exact .inr ⟨_, .cleared ho htop hks⟩

end Model

end ModelLabels
