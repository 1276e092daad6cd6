import ModelLabels.Proofs.Navigation
/-! # What is drawn stays on its view

A component of a view knows the view it is drawn on, and no move touches what it knows.  In every
reachable model it is right all the same: above a diagram object there are diagram objects of the same
view only and then the view itself, and a connection lies directly in the view that its ends are
drawn on, attached or not.

* `Model.NestedOn`: where the way over the owners of a diagram object ends.
* `Model.DiagramsCoherent`: the property; `Reachable.diagrams_coherent`.
-/

namespace ModelLabels.Model
set_option autoImplicit false

variable {m : Model} {k p v x : Key}

/-- From a diagram object, the way over diagram objects on a view and their owners ends at the view. -/
inductive NestedOn (m : Model) (v : Key) : Key → Prop where
  | direct {k : Key} {d : DiagramObject} (hk : m.diagramObject? k = some d) (hv : d.view = v)
      (hown : m.owner? k = some v) : NestedOn m v k
  | inside {k p : Key} {d : DiagramObject} (hk : m.diagramObject? k = some d) (hv : d.view = v)
      (hown : m.owner? k = some p) (hp : NestedOn m v p) : NestedOn m v k

/-- Diagram objects are nested on their views, and connections lie in the view of their ends. -/
structure DiagramsCoherent (m : Model) : Prop where
  nested : ∀ k d, m.diagramObject? k = some d →
    (m.view? d.view).isSome = true ∧ m.NestedOn d.view k
  connections : ∀ k c, m.connection? k = some c → ∃ v, m.drawnOn? k = some v ∧
    (m.view? v).isSome = true ∧ m.incoming .contains k = [v] ∧ k ∈ m.viewConnections v ∧
    ∀ x ∈ [c.source, c.target], m.IsComponent x ∧ m.drawnOn? x = some v

theorem Consistent.nestedOn (h : m.Consistent) {d : Nat} {s : Shown} (hd : m.Depth k d)
    (hk : m.role? k = some (.diagramObject s v)) : m.NestedOn v k := by
  -- By the depth at which the object lies: its owner lies less deep, and is drawn on the same view.
  induction hd generalizing s with
  | top _ hown =>
    obtain ⟨p, hp, -⟩ := h.exists_owner hk (by simp)
    rw [hown] at hp
    cases hp
  | @owned k p d hown _ ih =>
    obtain ⟨o, ho, hv⟩ := exists_diagramObject_of_role? hk
    obtain ⟨q, hq, hholds⟩ := h.exists_owner hk (by simp)
    obtain rfl : p = q := Option.some.inj (hown.symm.trans hq)
    rcases hholds with ⟨-, rfl⟩ | ⟨s', hs'⟩
    · exact .direct ho hv hown
    · exact .inside ho hv hown (ih hs')

theorem LinksExact.mem_viewConnections (h : m.LinksExact) (hv : m.role? v = some .view) :
    k ∈ m.viewConnections v ↔ m.owner? k = some v ∧ m.isConnection k = true := by
  rw [viewConnections, if_pos (view?_of_role? hv), List.mem_filter,
    h.mem_outgoing_contains (contains_of_role? hv)]

theorem Consistent.diagramsCoherent (h : m.Consistent) : m.DiagramsCoherent where
  nested k d hd := by
    have hrole := role?_of_diagramObject? hd
    obtain ⟨depth, hdepth⟩ := h.rooted k (contains_of_role? hrole)
    exact ⟨view?_of_role? (h.drawn hrole rfl), h.nestedOn hdepth hrole⟩
  connections k c hc := by
    have hrole := role?_of_connection? hc
    obtain ⟨v, hown, -, hends⟩ := h.exists_owner hrole (by simp)
    rw [hown] at hrole
    have hview : m.role? v = some .view := h.drawn hrole rfl
    have hcontained : m.incoming .contains k = [v] := by
      rw [h.links.incoming_contains (contains_of_role? hrole), hown]
      rfl
    have hconnection : m.isConnection k = true := by rw [isConnection, hc, Option.isSome_some]
    refine ⟨v, drawnOn?_of_role? hrole, view?_of_role? hview, hcontained,
      (h.links.mem_viewConnections hview).2 ⟨hown, hconnection⟩, fun x hx => ?_⟩
    obtain ⟨q, hq, hqv⟩ := hends x hx
    exact ⟨isComponent_of_role? hq hqv, (drawnOn?_of_role? hq).trans hqv⟩

/-- In every reachable model what is drawn lies on the view it knows. -/
theorem Reachable.diagrams_coherent (h : m.Reachable) : m.DiagramsCoherent :=
  h.sound.diagramsCoherent

/-- A connection between a connection and a note stays on their view when it is detached and the note is
put into a group. -/
theorem diagrams_coherent_detached :
    let view := (new 1 "Plan").nextKey
    let m₁ := ((new 1 "Plan").apply (.addView "Map")).2
    let group := m₁.nextKey
    let m₂ := (m₁.apply (.addGroup view "Area")).2
    let note := m₂.nextKey
    let m₃ := (m₂.apply (.addNote view "here")).2
    let line := m₃.nextKey
    let m₄ := (m₃.apply (.addConnection note group)).2
    let second := m₄.nextKey
    let m₅ := ((m₄.apply (.addConnection line note)).2.apply (.disconnect second)).2
    let n := (m₅.apply (.moveTo note group)).2
    n.Reachable ∧ n.owner? note = some group ∧ n.NestedOn view note ∧
      (∃ c, n.connection? second = some c ∧ c.isConnected = false ∧ c.source = line) ∧
      n.drawnOn? line = some view ∧ n.DiagramsCoherent := by
  intro view m₁ group m₂ note m₃ line m₄ second m₅ n
  have hn : n.Reachable :=
    .step (.step (.step (.step (.step (.step (.step (.new 1 "Plan") (.apply _)) (.apply _))
      (.apply _)) (.apply _)) (.apply _)) (.apply _)) (.apply _)
  have hnote : n.diagramObject? note = some ⟨.note "here", view⟩ := by decide
  have hsecond : n.connection? second = some ⟨⟨"", ""⟩, none, line, note, false⟩ := by decide
  have hcoherent := hn.diagrams_coherent
  obtain ⟨-, hnested⟩ := hcoherent.nested note _ hnote
  exact ⟨hn, by decide, hnested, ⟨_, hsecond, rfl, rfl⟩, by decide, hcoherent⟩

end ModelLabels.Model
