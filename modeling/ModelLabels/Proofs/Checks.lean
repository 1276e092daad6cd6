import ModelLabels.Model.Move
import ModelLabels.Proofs.Role
/-! # What passed checks say

A check that was passed says that objects are there, and which roles they have.

* `Model.requirePart_eq_ok`: a passed check for a part of an object.
* `Model.role?_of_requireFolder`, …, `role?_of_requireAccepting`: the roles that checks make sure of.
* `Model.of_checkMove`: what makes an object free to move.
-/

namespace ModelLabels
set_option autoImplicit false

section Checks
variable {α β : Type} {e : EditError}

theorem bind_eq_ok {x : Except EditError α} {f : α → Except EditError β} {b : β} :
    x >>= f = .ok b ↔ ∃ a, x = .ok a ∧ f a = .ok b := by
  cases x with
  | ok a => simp [bind, Except.bind]
  | error e => simp [bind, Except.bind]

theorem ite_throw_eq_ok {p : Prop} [Decidable p] {x : Except EditError α} {a : α} :
    (if p then x else throw e) = .ok a ↔ p ∧ x = .ok a := by
  by_cases h : p <;> simp [h, throw, throwThe, MonadExceptOf.throw]

theorem throw_ite_eq_ok {p : Prop} [Decidable p] {x : Except EditError α} {a : α} :
    (if p then throw e else x) = .ok a ↔ ¬ p ∧ x = .ok a := by
  by_cases h : p <;> simp [h, throw, throwThe, MonadExceptOf.throw]

namespace Model
variable {m : Model} {k : Key}

theorem requirePart_eq_ok {α : Type} {expected : Requirement}
    {part? : Object → Option α} {o : Object} {a : α} :
    m.requirePart k expected part? = .ok (o, a) ↔ m.get? k = some o ∧ part? o = some a := by
  cases hk : m.get? k with
  | none => simp [requirePart, hk]
  | some p =>
    cases hp : part? p with
    | none =>
      simp only [requirePart, hk, hp, reduceCtorEq, Option.some.injEq, false_iff, not_and]
      rintro rfl
      simp [hp]
    | some b =>
      simp only [requirePart, hk, hp, Except.ok.injEq, Prod.mk.injEq, Option.some.injEq]
      constructor
      · rintro ⟨rfl, rfl⟩
        exact ⟨rfl, hp⟩
      · rintro ⟨rfl, h⟩
        exact ⟨rfl, Option.some.inj (hp.symm.trans h)⟩

theorem require_eq_ok {o : Object} : m.require k = .ok o ↔ m.get? k = some o := by
  unfold require
  cases m.get? k <;> simp

theorem role?_of_requireFolder {a : Object × Folder} (h : m.requireFolder k = .ok a) :
    m.role? k = some (.folder a.2.type a.2.rootType) := by
  obtain ⟨⟨id, owner, body⟩, f⟩ := a
  obtain ⟨hk, hp⟩ := requirePart_eq_ok.1 h
  rw [role?_of_get? hk]
  cases body <;> cases hp
  rfl

theorem role?_of_requireConcept {a : Object × Concept} (h : m.requireConcept k = .ok a) :
    m.role? k = some (.concept a.2.kind) := by
  obtain ⟨⟨id, owner, body⟩, c⟩ := a
  obtain ⟨hk, hp⟩ := requirePart_eq_ok.1 h
  rw [role?_of_get? hk]
  cases body <;> cases hp
  rfl

theorem role?_of_requireView {a : Object × View} (h : m.requireView k = .ok a) :
    m.role? k = some .view := by
  obtain ⟨⟨id, owner, body⟩, v⟩ := a
  obtain ⟨hk, hp⟩ := requirePart_eq_ok.1 h
  rw [role?_of_get? hk]
  cases body <;> cases hp
  rfl

theorem role?_of_requireComponent {a : Object × Key} (h : m.requireComponent k = .ok a) :
    ∃ r, m.role? k = some r ∧ r.drawnOn? = some a.2 := by
  obtain ⟨hk, hp⟩ := requirePart_eq_ok.1 h
  exact ⟨a.1.role, role?_of_get? hk, a.1.drawnOn?_role ▸ hp⟩

theorem role?_of_requireContainer {a : Object × Key} (h : m.requireContainer k = .ok a) :
    (m.role? k = some .view ∧ a.2 = k) ∨ ∃ s, m.role? k = some (.diagramObject s a.2) := by
  obtain ⟨⟨id, owner, body⟩, v⟩ := a
  obtain ⟨hk, hp⟩ := requirePart_eq_ok.1 h
  rw [role?_of_get? hk]
  cases body <;> cases hp
  · exact .inl ⟨rfl, rfl⟩
  · exact .inr ⟨_, rfl⟩

theorem role?_of_requireAccepting {c : Category} {what : String}
    (h : m.requireAccepting k c what = .ok ()) :
    ∃ t, m.role? k = some (.folder t (.forCategory c)) := by
  unfold requireAccepting at h
  cases hf : m.requireFolder k with
  | error e => simp [hf] at h
  | ok a =>
    have hacc : a.2.rootType = .forCategory c := by simpa [hf, Folder.accepts] using h
    exact ⟨a.2.type, hacc ▸ role?_of_requireFolder hf⟩

/-- What a move asks of the object and of its new owner. -/
theorem of_checkMove {p : Key} (h : m.checkMove k p = .ok ()) :
    ∃ o, m.get? k = some o ∧ o.isTopLevel = false ∧ m.Holds p o.role ∧
      o.role.isConnection = false ∧
      ((∃ t r, o.role = .folder t r) ∨ (∃ s v, o.role = .diagramObject s v) →
        m.isWithin p k = false) := by
  obtain ⟨o, ho, hc⟩ := bind_eq_ok.1 h
  refine ⟨o, require_eq_ok.1 ho, ?_⟩
  obtain ⟨id, owner, body⟩ := o
  cases body with
  | folder f =>
    obtain ⟨htop, hc⟩ := throw_ite_eq_ok.1 hc
    obtain ⟨a, ha, hc⟩ := bind_eq_ok.1 hc
    obtain ⟨hroot, hc⟩ := throw_ite_eq_ok.1 hc
    obtain ⟨hwithin, -⟩ := throw_ite_eq_ok.1 hc
    have hrole := role?_of_requireFolder ha
    rw [Decidable.not_not.1 hroot] at hrole
    exact ⟨by simpa using htop, ⟨_, hrole⟩, rfl, fun _ => by simpa using hwithin⟩
  | concept c =>
    exact ⟨rfl, role?_of_requireAccepting hc, rfl, by simp [Object.role]⟩
  | view v =>
    obtain ⟨a, ha, hc⟩ := bind_eq_ok.1 hc
    obtain ⟨hviews, -⟩ := ite_throw_eq_ok.1 hc
    have hrole := role?_of_requireFolder ha
    rw [show a.2.rootType = .views by simpa [Folder.isViewFolder] using hviews] at hrole
    exact ⟨rfl, ⟨_, hrole⟩, rfl, by simp [Object.role]⟩
  | diagramObject d =>
    obtain ⟨a, ha, hc⟩ := bind_eq_ok.1 hc
    obtain ⟨hview, hc⟩ := throw_ite_eq_ok.1 hc
    obtain ⟨hwithin, -⟩ := throw_ite_eq_ok.1 hc
    have hrole := role?_of_requireContainer ha
    rw [Decidable.not_not.1 hview] at hrole
    exact ⟨rfl, hrole, rfl, fun _ => by simpa using hwithin⟩
  | connection c => cases hc

end Model
end Checks

end ModelLabels
