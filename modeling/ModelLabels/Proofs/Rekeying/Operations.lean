import ModelLabels.Proofs.Rekeying.Changes
/-! # Operations under other keys

An operation has the same outcome on a model and on the model under other keys: both accept it, or both
refuse it for the same reason, and the models it leaves differ in keys again.

* `Alike`: such outcomes; `Alike.commit`, `check_bind`, `map`: how they are put together.
* `Operation.alike_run`: all operations.
-/

namespace ModelLabels
set_option autoImplicit false

/-- Outcomes of a change to a model and to the model under other keys.  When the change is accepted,
there may be a new key to match before the answers can be compared. -/
inductive Alike {α : Type} (answer : (Key → Key) → α → α) (σ : Key → Key) :
    EStateM.Result EditError Model α → EStateM.Result EditError Model α → Prop where
  | ok {τ : Key → Key} {m n : Model} (h : m.Rekeyed τ n) (a : α) :
      Alike answer σ (.ok a m) (.ok (answer τ a) n)
  | error {m n : Model} (h : m.Rekeyed σ n) (e : EditError) :
      Alike answer σ (.error e m) (.error (e.mapKeys σ) n)

variable {σ : Key → Key} {m n : Model}

/-! ## One step after another -/

namespace Alike
variable {α β γ δ : Type} {answer : (Key → Key) → α → α} {answer' : (Key → Key) → β → β}

theorem map {f : α → β} {x x' : Edit α} (h : Alike answer σ (x m) (x' n))
    (hf : ∀ τ a, f (answer τ a) = answer' τ (f a)) :
    Alike answer' σ ((f <$> x) m) ((f <$> x') n) := by
  rw [Edit.map_apply, Edit.map_apply]
  generalize x m = r at h
  generalize x' n = r' at h
  cases h with
  | ok h a =>
    dsimp only
    rw [hf]
    exact .ok h (f a)
  | error h e => exact .error h e

theorem ite {p q : Prop} [Decidable p] [Decidable q] (hpq : q ↔ p) {x y x' y' : Edit α}
    (hx : p → Alike answer σ (x m) (x' n)) (hy : ¬ p → Alike answer σ (y m) (y' n)) :
    Alike answer σ ((if p then x else y) m) ((if q then x' else y') n) := by
  by_cases hp : p
  · rw [if_pos hp, if_pos (hpq.2 hp)]
    exact hx hp
  · rw [if_neg hp, if_neg (mt hpq.1 hp)]
    exact hy hp

theorem check_bind (h : m.Rekeyed σ n) {f : Model → Except EditError γ}
    {f' : Model → Except EditError δ} {g : γ → δ} {x : γ → Edit α} {x' : δ → Edit α}
    (hf : f' n = mapChecked σ g (f m))
    (hx : ∀ a, f m = .ok a → Alike answer σ (x a m) (x' (g a) n)) :
    Alike answer σ ((Edit.check f >>= x) m) ((Edit.check f' >>= x') n) := by
  rw [Edit.bind_apply, Edit.bind_apply, Edit.check_apply, Edit.check_apply, hf]
  cases ha : f m with
  | ok a => exact hx a ha
  | error e => exact .error h e

theorem commit (h : m.Rekeyed σ n) {checked : Except EditError γ} {checked' : Except EditError δ}
    {g : γ → δ} {change : γ → α × Model} {change' : δ → α × Model}
    (hchecked : checked' = mapChecked σ g checked)
    (hchange : ∀ a, checked = .ok a → ∃ τ, (change a).2.Rekeyed τ (change' (g a)).2 ∧
      (change' (g a)).1 = answer τ (change a).1) :
    Alike answer σ (Edit.commit checked m change) (Edit.commit checked' n change') := by
  rw [hchecked]
  cases ha : checked with
  | error e => exact .error h e
  | ok a =>
    obtain ⟨τ, hrekeyed, hanswer⟩ := hchange a ha
    show Alike answer σ (.ok (change a).1 (change a).2) (.ok (change' (g a)).1 (change' (g a)).2)
    rw [hanswer]
    exact .ok hrekeyed _

end Alike

/-! ## Operations that change what is there -/

namespace Edit

/-- What is answered has no keys in it. -/
abbrev Plain (α : Type) : (Key → Key) → α → α := fun _ a => a

section Change
variable (h : m.Rekeyed σ n)
include h

theorem alike_disconnect (k : Key) :
    Alike (Plain Unit) σ (disconnect k m) (disconnect (σ k) n) := by
  rw [disconnect_apply, disconnect_apply]
  refine .commit h (h.requireConnection k) fun a _ => ⟨σ, ?_, rfl⟩
  show Model.Rekeyed σ (if a.2.isConnected then m.detached k else m)
    (if a.2.isConnected then n.detached (σ k) else n)
  split
  · exact h.detached k
  · exact h

theorem alike_reconnect (k : Key) :
    Alike (Plain Unit) σ (reconnect k m) (reconnect (σ k) n) := by
  rw [reconnect_apply, reconnect_apply]
  refine .commit h (g := (·.mapKeys σ)) ?_ fun c _ => ⟨σ, ?_, rfl⟩
  · rw [h.requireConnection]
    refine mapChecked_bind fun a => mapChecked_ite Iff.rfl rfl ?_
    dsimp only [Prod.map_snd, Connection.mapKeys]
    rw [h.requireComponent, h.requireComponent]
    exact mapChecked_bind fun _ => mapChecked_bind fun _ => rfl
  · show Model.Rekeyed σ (if c.isConnected then m else m.reattached k c)
      (if c.isConnected then n else n.reattached (σ k) (c.mapKeys σ))
    split
    · exact h
    · exact h.reattached k c

theorem alike_revise (k : Key) (expected : Requirement) {change? : Body → Option Body}
    (hchange : ∀ b, change? (b.mapKeys σ) = (change? b).map (·.mapKeys σ)) :
    Alike (Plain Unit) σ (revise k expected change? m) (revise (σ k) expected change? n) := by
  rw [revise_apply, revise_apply]
  exact .commit h (h.requirePart (g := Body.mapKeys σ) (fun o => hchange o.body) k expected)
    fun a _ => ⟨σ, h.revised k a.2, rfl⟩

/-- The same for the object that is described in place of the one that was named. -/
theorem alike_describe (k : Key) (expected : Requirement) {change? : Body → Option Body}
    (hchange : ∀ b, change? (b.mapKeys σ) = (change? b).map (·.mapKeys σ)) :
    Alike (Plain Unit) σ
      ((do
        let owner ← check (·.describedBy k)
        revise owner expected change?) m)
      ((do
        let owner ← check (·.describedBy (σ k))
        revise owner expected change?) n) :=
  .check_bind h (h.describedBy k) fun owner _ => alike_revise h owner expected hchange

theorem alike_setId (k : Key) (id : String) :
    Alike (Plain Unit) σ (setId k id m) (setId (σ k) id n) := by
  have hused : n.usedIds = m.usedIds := (congrArg Model.usedIds h.rest :)
  rw [setId_apply, setId_apply, hused]
  refine .commit h (g := (·.mapKeys σ)) ?_ fun o _ => ⟨σ, ?_, rfl⟩
  · refine mapChecked_ite Iff.rfl rfl ?_
    rw [h.require]
    exact mapChecked_bind fun o => mapChecked_ite Iff.rfl rfl (mapChecked_ite Iff.rfl rfl rfl)
  · show Model.Rekeyed σ (if o.id = id then m else m.renamed k o.id id)
      (if o.id = id then n else n.renamed (σ k) o.id id)
    split
    · exact h
    · exact h.renamed k o.id id

theorem alike_moveTo (k parent : Key) :
    Alike (Plain Unit) σ (moveTo k parent m) (moveTo (σ k) (σ parent) n) := by
  rw [moveTo_apply, moveTo_apply]
  exact .commit h (h.checkMove k parent) fun _ _ => ⟨σ, h.moved k parent, rfl⟩

theorem alike_remove (k : Key) : Alike (Plain Nat) σ (remove k m) (remove (σ k) n) := by
  rw [remove_apply, remove_apply]
  refine .commit h (g := fun a => a) ?_ fun _ _ => ⟨σ, ?_, ?_⟩
  · rw [h.require]
    refine mapChecked_bind fun o => mapChecked_ite ?_ rfl rfl
    rw [o.isTopLevel_mapKeys]
  · exact h.cleared (List.Perm.of_eq (h.doomed k))
  · show (n.doomed (σ k)).length = (m.doomed k).length
    rw [h.doomed, List.length_map]

end Change

/-! ## Operations that add objects -/

/-- What is answered is the key that was added. -/
abbrev NewKey : (Key → Key) → Key → Key := fun τ k => τ k

section Add
variable (h : m.Rekeyed σ n) (hm : m.Sound) (hnumbered : m.Numbered)
include h hm hnumbered

/-- An object that is added once a check was passed, which makes sure that it fits. -/
theorem alike_added {γ δ : Type} {checked : Except EditError γ} {checked' : Except EditError δ}
    {g : γ → δ} {p : γ → Key} {p' : δ → Key} {b : γ → Body} {b' : δ → Body}
    (hchecked : checked' = mapChecked σ g checked) (hp : ∀ a, p' (g a) = σ (p a))
    (hb : ∀ a, b' (g a) = (b a).mapKeys σ)
    (heffect : ∀ k q, commit checked m (fun a => (m.nextKey, m.added (p a) (b a))) = .ok k q →
      m.Effect (.added k) q) :
    Alike NewKey σ (commit checked m fun a => (m.nextKey, m.added (p a) (b a)))
      (commit checked' n fun a => (n.nextKey, n.added (p' a) (b' a))) := by
  refine .commit h hchecked fun a ha => ?_
  have hfit := (heffect _ _ (commit_eq_ok.2 ⟨a, ha, rfl⟩)).fits_of_added
  obtain ⟨τ, hrekeyed, hkey⟩ := h.added hm hnumbered hfit
  refine ⟨τ, ?_, hkey.symm⟩
  dsimp only
  rw [hp, hb]
  exact hrekeyed

theorem alike_addFolder (parent : Key) (name : String) :
    Alike NewKey σ (addFolder parent name m) (addFolder (σ parent) name n) := by
  have heffect {k : Key} {q : Model} (hq : addFolder parent name m = .ok k q) :=
    addFolder_effect hq
  rw [addFolder_apply] at heffect ⊢
  rw [addFolder_apply]
  exact alike_added h hm hnumbered (h.requireFolder parent) (fun _ => rfl) (fun _ => rfl)
    fun _ _ => heffect

theorem alike_addElementIn (folder : Key) (type : ElementType) (name : String) :
    Alike NewKey σ (addElementIn folder type name m) (addElementIn (σ folder) type name n) := by
  have heffect {k : Key} {q : Model} (hq : addElementIn folder type name m = .ok k q) :=
    addElementIn_effect hq
  rw [addElementIn_apply] at heffect ⊢
  rw [addElementIn_apply]
  exact alike_added h hm hnumbered (h.requireAccepting folder _ _) (fun _ => rfl) (fun _ => rfl)
    fun _ _ => heffect

theorem alike_addRelationshipIn (folder : Key) (type : RelationshipType) (source target : Key) :
    Alike NewKey σ (addRelationshipIn folder type source target m)
      (addRelationshipIn (σ folder) type (σ source) (σ target) n) := by
  have heffect {k : Key} {q : Model}
      (hq : addRelationshipIn folder type source target m = .ok k q) := addRelationshipIn_effect hq
  rw [addRelationshipIn_apply] at heffect ⊢
  rw [addRelationshipIn_apply]
  refine alike_added h hm hnumbered (g := Prod.map (·.mapKeys σ) (·.mapKeys σ)) ?_ (fun _ => rfl)
    (fun _ => rfl) fun _ _ => heffect
  rw [h.requireAccepting, h.requireConcept, h.requireConcept]
  exact mapChecked_bind fun _ => mapChecked_bind fun _ => rfl

theorem alike_addViewIn (folder : Key) (name : String) :
    Alike NewKey σ (addViewIn folder name m) (addViewIn (σ folder) name n) := by
  have heffect {k : Key} {q : Model} (hq : addViewIn folder name m = .ok k q) := addViewIn_effect hq
  rw [addViewIn_apply] at heffect ⊢
  rw [addViewIn_apply]
  refine alike_added h hm hnumbered (g := fun a => a) ?_ (fun _ => rfl) (fun _ => rfl)
    fun _ _ => heffect
  rw [h.requireFolder]
  exact mapChecked_bind fun a => mapChecked_ite Iff.rfl rfl rfl

theorem alike_addDiagramObject (container : Key) (shows : Shown)
    (heffect : ∀ k q, addDiagramObject container shows m = .ok k q → m.Effect (.added k) q) :
    Alike NewKey σ (addDiagramObject container shows m)
      (addDiagramObject (σ container) (shows.mapKeys σ) n) := by
  rw [addDiagramObject_apply] at heffect ⊢
  rw [addDiagramObject_apply]
  exact alike_added h hm hnumbered (h.requireContainer container) (fun _ => rfl) (fun _ => rfl)
    heffect

theorem alike_addLine (relationship : Option Key) (source target : Key)
    (heffect : ∀ k q, addLine relationship source target m = .ok k q → m.Effect (.added k) q) :
    Alike NewKey σ (addLine relationship source target m)
      (addLine (relationship.map σ) (σ source) (σ target) n) := by
  rw [addLine_apply] at heffect ⊢
  rw [addLine_apply]
  refine alike_added h hm hnumbered ?_ (fun _ => rfl) (fun _ => rfl) heffect
  rw [h.requireComponent, h.requireComponent]
  exact mapChecked_bind fun a => mapChecked_bind fun b => mapChecked_ite h.eq_iff rfl rfl

theorem alike_addElementObject (container concept : Key) :
    Alike NewKey σ (addElementObject container concept m)
      (addElementObject (σ container) (σ concept) n) := by
  have heffect {k : Key} {q : Model} (hq : addElementObject container concept m = .ok k q) :=
    addElementObject_effect hq
  refine .check_bind h (h.requireConcept concept) fun a ha => ?_
  refine .ite a.2.isRelationship_mapKeys (fun _ => .error h _) fun hrel => ?_
  refine alike_addDiagramObject h hm hnumbered container (.element concept) fun k q hq => ?_
  refine heffect (check_bind_eq_ok.2 ⟨a, ha, ?_⟩)
  dsimp only
  rwa [if_neg hrel]

theorem alike_addReference (container view : Key) :
    Alike NewKey σ (addReference container view m) (addReference (σ container) (σ view) n) := by
  refine .check_bind h (h.requireView view) fun a ha => ?_
  exact alike_addDiagramObject h hm hnumbered container (.reference view) fun k q hq =>
    addReference_effect (check_bind_eq_ok.2 ⟨a, ha, hq⟩)

theorem alike_addRelationshipConnection (relationship source target : Key) :
    Alike NewKey σ (addRelationshipConnection relationship source target m)
      (addRelationshipConnection (σ relationship) (σ source) (σ target) n) := by
  have heffect {k : Key} {q : Model}
      (hq : addRelationshipConnection relationship source target m = .ok k q) :=
    addRelationshipConnection_effect hq
  refine .check_bind h (h.requireConcept relationship) fun a ha => ?_
  refine .ite a.2.isRelationship_mapKeys (fun hrel => ?_) fun _ => .error h _
  refine alike_addLine h hm hnumbered (some relationship) source target fun k q hq => ?_
  refine heffect (check_bind_eq_ok.2 ⟨a, ha, ?_⟩)
  dsimp only
  rwa [if_pos hrel]

end Add

/-- The folder that things are put into when no folder is given. -/
theorem topLevelFolder?_mapChecked (h : m.Rekeyed σ n) (t : FolderType) (folder what : String) :
    (match n.topLevelFolder? t with
      | some k => .ok k
      | none => .error (.folderMismatch folder what)) =
    mapChecked σ σ (match m.topLevelFolder? t with
      | some k => .ok k
      | none => .error (.folderMismatch folder what)) := by
  rw [h.topLevelFolder?]
  cases m.topLevelFolder? t <;> rfl

end Edit

/-! ## All operations -/

namespace Operation

theorem alike_run (h : m.Rekeyed σ n) (hm : m.Sound) (hnumbered : m.Numbered) (op : Operation) :
    Alike Answer.mapKeys σ (op.run m) ((op.mapKeys σ).run n) := by
  cases op with
  | addFolder parent name =>
    exact (Edit.alike_addFolder h hm hnumbered parent name).map fun _ _ => rfl
  | addElement type name =>
    refine .map (.check_bind h (Edit.topLevelFolder?_mapChecked h _ _ _) fun folder _ => ?_)
      fun _ _ => rfl
    exact Edit.alike_addElementIn h hm hnumbered folder type name
  | addElementIn folder type name =>
    exact (Edit.alike_addElementIn h hm hnumbered folder type name).map fun _ _ => rfl
  | addRelationship type source target =>
    refine .map (.check_bind h (Edit.topLevelFolder?_mapChecked h _ _ _) fun folder _ => ?_)
      fun _ _ => rfl
    exact Edit.alike_addRelationshipIn h hm hnumbered folder type source target
  | addRelationshipIn folder type source target =>
    exact (Edit.alike_addRelationshipIn h hm hnumbered folder type source target).map fun _ _ => rfl
  | addView name =>
    refine .map (.check_bind h (Edit.topLevelFolder?_mapChecked h _ _ _) fun folder _ => ?_)
      fun _ _ => rfl
    exact Edit.alike_addViewIn h hm hnumbered folder name
  | addViewIn folder name =>
    exact (Edit.alike_addViewIn h hm hnumbered folder name).map fun _ _ => rfl
  | addElementObject container concept =>
    exact (Edit.alike_addElementObject h hm hnumbered container concept).map fun _ _ => rfl
  | addNote container content =>
    refine .map (Edit.alike_addDiagramObject h hm hnumbered container (.note content) ?_)
      fun _ _ => rfl
    exact fun _ _ hq => Edit.addDiagramObject_effect hq fun _ => trivial
  | addGroup container name =>
    refine .map (Edit.alike_addDiagramObject h hm hnumbered container (.group ⟨name, ""⟩) ?_)
      fun _ _ => rfl
    exact fun _ _ hq => Edit.addDiagramObject_effect hq fun _ => trivial
  | addReference container view =>
    exact (Edit.alike_addReference h hm hnumbered container view).map fun _ _ => rfl
  | addConnection source target =>
    refine .map (Edit.alike_addLine h hm hnumbered none source target ?_) fun _ _ => rfl
    exact fun _ _ hq => Edit.addLine_effect hq fun _ _ _ => trivial
  | addRelationshipConnection relationship source target =>
    exact (Edit.alike_addRelationshipConnection h hm hnumbered relationship source target).map
      fun _ _ => rfl
  | disconnect key => exact (Edit.alike_disconnect h key).map fun _ _ => rfl
  | reconnect key => exact (Edit.alike_reconnect h key).map fun _ _ => rfl
  | setName key name =>
    exact (Edit.alike_describe h key .nameable fun b => b.mapCaption?_mapKeys _).map fun _ _ => rfl
  | setDocumentation key documentation =>
    exact (Edit.alike_describe h key .documentable fun b => b.mapCaption?_mapKeys _).map
      fun _ _ => rfl
  | setProperty key property value =>
    exact (Edit.alike_describe h key .propertyHolder fun b => b.mapProperties?_mapKeys _).map
      fun _ _ => rfl
  | setContent key content =>
    exact (Edit.alike_revise h key .note fun b => b.withContent?_mapKeys content).map fun _ _ => rfl
  | setId key id => exact (Edit.alike_setId h key id).map fun _ _ => rfl
  | moveTo key parent => exact (Edit.alike_moveTo h key parent).map fun _ _ => rfl
  | remove key => exact (Edit.alike_remove h key).map fun _ _ => rfl
  | rename name => exact .ok (h.described fun d => { d with name }) Answer.done
  | setModelDocumentation documentation =>
    exact .ok (h.described fun d => { d with documentation }) Answer.done
  | setModelProperty property value =>
    exact .ok (h.described fun d => { d with properties := d.properties.set property value })
      Answer.done

end Operation

end ModelLabels
