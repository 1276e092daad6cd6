import ModelLabels.Model.Describe
import ModelLabels.Model.Move
import ModelLabels.Proofs.Rekeying.Reading
/-! # Checks under other keys

A check comes to the same on a model and on the model under other keys: it is passed on both or on
neither, and what it answers differs in keys only.

* `mapChecked`: what a check answers under other keys; `mapChecked_bind`: one check after another.
* `Rekeyed.require`, …, `Rekeyed.checkMove`: the checks, in the order of their definitions.
-/

namespace ModelLabels
set_option autoImplicit false

section MapChecked
variable {α β γ δ : Type} {σ : Key → Key}

/-- What a check answers under other keys, or the error it refuses with. -/
def mapChecked (σ : Key → Key) (g : α → β) : Except EditError α → Except EditError β
  | .ok a => .ok (g a)
  | .error e => .error (e.mapKeys σ)

theorem mapChecked_bind {g : α → β} {g' : γ → δ} {x : Except EditError α}
    {f : α → Except EditError γ} {f' : β → Except EditError δ}
    (hf : ∀ a, f' (g a) = mapChecked σ g' (f a)) :
    mapChecked σ g x >>= f' = mapChecked σ g' (x >>= f) := by
  cases x with
  | ok a => exact hf a
  | error e => rfl

/-- Two checks that branch on the same condition. -/
theorem mapChecked_ite {g : α → β} {p q : Prop} [Decidable p] [Decidable q] (hpq : q ↔ p)
    {x y : Except EditError α} {x' y' : Except EditError β} (hx : x' = mapChecked σ g x)
    (hy : y' = mapChecked σ g y) :
    (if q then x' else y') = mapChecked σ g (if p then x else y) := by
  by_cases hp : p
  · rw [if_pos hp, if_pos (hpq.2 hp), hx]
  · rw [if_neg hp, if_neg (mt hpq.1 hp), hy]

end MapChecked

namespace Model.Rekeyed
variable {σ : Key → Key} {m n : Model} (h : m.Rekeyed σ n)
include h

theorem require (k : Key) : n.require (σ k) = mapChecked σ (·.mapKeys σ) (m.require k) := by
  unfold Model.require
  rw [h.get?]
  cases m.get? k <;> rfl

theorem requirePart {α β : Type} {g : α → β} {part? : Object → Option α}
    {part?' : Object → Option β} (hpart : ∀ o, part?' (o.mapKeys σ) = (part? o).map g) (k : Key)
    (expected : Requirement) :
    n.requirePart (σ k) expected part?' =
      mapChecked σ (Prod.map (·.mapKeys σ) g) (m.requirePart k expected part?) := by
  unfold Model.requirePart
  rw [h.get?]
  cases m.get? k with
  | none => rfl
  | some o =>
    simp only [Option.map_some, hpart]
    cases part? o <;> rfl

theorem requireFolder (k : Key) :
    n.requireFolder (σ k) =
      mapChecked σ (Prod.map (·.mapKeys σ) fun f => f) (m.requireFolder k) :=
  h.requirePart (fun o => o.body.folder?_mapKeys.trans Option.map_id'.symm) k .folder

theorem requireConcept (k : Key) :
    n.requireConcept (σ k) =
      mapChecked σ (Prod.map (·.mapKeys σ) (·.mapKeys σ)) (m.requireConcept k) :=
  h.requirePart (fun o => o.body.concept?_mapKeys) k .concept

theorem requireView (k : Key) :
    n.requireView (σ k) = mapChecked σ (Prod.map (·.mapKeys σ) fun v => v) (m.requireView k) :=
  h.requirePart (fun o => o.body.view?_mapKeys.trans Option.map_id'.symm) k .view

theorem requireConnection (k : Key) :
    n.requireConnection (σ k) =
      mapChecked σ (Prod.map (·.mapKeys σ) (·.mapKeys σ)) (m.requireConnection k) :=
  h.requirePart (fun o => o.body.connection?_mapKeys) k .connection

theorem requireComponent (k : Key) :
    n.requireComponent (σ k) =
      mapChecked σ (Prod.map (·.mapKeys σ) σ) (m.requireComponent k) :=
  h.requirePart (fun o => o.drawnOn?_mapKeys) k .component

theorem requireContainer (k : Key) :
    n.requireContainer (σ k) =
      mapChecked σ (Prod.map (·.mapKeys σ) σ) (m.requireContainer k) := by
  refine h.requirePart (fun o => ?_) k .container
  obtain ⟨id, owner, body⟩ := o
  cases body <;> rfl

theorem requireAccepting (k : Key) (c : Category) (what : String) :
    n.requireAccepting (σ k) c what = mapChecked σ (fun a => a) (m.requireAccepting k c what) := by
  unfold Model.requireAccepting
  rw [h.requireFolder]
  cases m.requireFolder k with
  | error e => rfl
  | ok a => exact mapChecked_ite Iff.rfl rfl rfl

theorem describedBy (k : Key) : n.describedBy (σ k) = mapChecked σ σ (m.describedBy k) := by
  unfold Model.describedBy
  rw [h.require]
  cases m.require k with
  | error e => rfl
  | ok o =>
    obtain ⟨id, owner, body⟩ := o
    cases body with
    | diagramObject d =>
      obtain ⟨shows, view⟩ := d
      cases shows <;> rfl
    | _ => rfl

theorem checkMove (k parent : Key) :
    n.checkMove (σ k) (σ parent) = mapChecked σ (fun a => a) (m.checkMove k parent) := by
  unfold Model.checkMove
  rw [h.require]
  refine mapChecked_bind fun o => ?_
  have htop : (o.mapKeys σ).isTopLevel = o.isTopLevel := o.isTopLevel_mapKeys
  obtain ⟨id, owner, body⟩ := o
  cases body with
  | folder f =>
    refine mapChecked_ite (by rw [htop]) rfl ?_
    rw [h.requireFolder]
    refine mapChecked_bind fun a => mapChecked_ite Iff.rfl rfl ?_
    exact mapChecked_ite (by rw [h.isWithin]) rfl rfl
  | concept c =>
    simp only [Object.mapKeys, Body.mapKeys, Concept.mapKeys, ConceptKind.category_mapKeys,
      ConceptKind.label_mapKeys]
    exact h.requireAccepting parent _ _
  | view v =>
    dsimp only [Object.mapKeys, Body.mapKeys]
    rw [h.requireFolder]
    exact mapChecked_bind fun a => mapChecked_ite Iff.rfl rfl rfl
  | diagramObject d =>
    dsimp only [Object.mapKeys, Body.mapKeys, DiagramObject.mapKeys]
    rw [h.requireContainer]
    refine mapChecked_bind fun a => mapChecked_ite (not_congr h.eq_iff) rfl ?_
    exact mapChecked_ite (by rw [h.isWithin]) rfl rfl
  | connection c => rfl

end Model.Rekeyed

end ModelLabels
