import Mathlib.Order.Bounds.Defs
import Mathlib.Data.Set.Basic
import ModelLabels.Proofs.Integrity.Invariant
/-! # What goes with an object

Of two objects one depends on the other if it is owned by it or refers to it.  The search over links
finds the least set of objects that holds an object and all that depends on what it holds.

* `Model.DependsOn`: dependence, said by fields; `mem_dependents`: the same by links.
* `Model.IsClosed`: nothing outside of a set depends on what is in it.
* `Consistent.doomed_isLeast`: what goes with an object is the least closed set.
-/

namespace ModelLabels.Model
set_option autoImplicit false

variable {m : Model} {k p x y : Key} {o : Object}

/-! ## Dependence -/

/-- An object depends on another one: what owns it, the ends of a relationship, what is shown on a
view, the relationship a connection stands for, and the ends of a connection, attached or not. -/
inductive DependsOn (m : Model) (x y : Key) : Prop where
  | owned (hy : m.owner? x = some y)
  | ends {c : Concept} {s t : Key} (hx : m.concept? x = some c) (hc : c.kind.ends? = some (s, t))
      (hy : y = s ∨ y = t)
  | shows {d : DiagramObject} (hx : m.diagramObject? x = some d)
      (hy : d.shows = .element y ∨ d.shows = .reference y)
  | draws {c : Connection} (hx : m.connection? x = some c) (hy : c.relationship = some y)
  | connects {c : Connection} (hx : m.connection? x = some c) (hy : c.source = y ∨ c.target = y)

/-- An object depends on its owner and on what it refers to. -/
theorem dependsOn_iff (ho : m.get? x = some o) :
    m.DependsOn x y ↔ o.owner = some y ∨ y ∈ o.role.references := by
  have hown := owner?_of_get? ho
  constructor
  · intro h
    cases h with
    | owned hy => exact .inl (hown.symm.trans hy)
    | ends hx hc hy =>
      simp only [concept?, ho, Option.bind_some] at hx
      obtain ⟨id, owner, body⟩ := o
      cases body <;> cases hx
      simpa [Object.role, Role.references, hc] using .inr hy
    | shows hx hy =>
      simp only [diagramObject?, ho, Option.bind_some] at hx
      obtain ⟨id, owner, body⟩ := o
      cases body <;> cases hx
      simpa [Object.role, Role.references, Shown.subject?_outline] using
        .inr (Shown.subject?_eq_some.2 hy)
    | draws hx hy =>
      simp only [connection?, ho, Option.bind_some] at hx
      obtain ⟨id, owner, body⟩ := o
      cases body <;> cases hx
      simp [Object.role, Role.references, hy]
    | connects hx hy =>
      simp only [connection?, ho, Option.bind_some] at hx
      obtain ⟨id, owner, body⟩ := o
      cases body <;> cases hx
      rcases hy with rfl | rfl <;> simp [Object.role, Role.references]
  · rintro (hy | hy)
    · exact .owned (hown.trans hy)
    · obtain ⟨id, owner, body⟩ := o
      cases body with
      | folder f => cases hy
      | view v => cases hy
      | concept c =>
        cases hc : c.kind.ends? with
        | none => simp [Object.role, Role.references, hc] at hy
        | some ends =>
          have hy : y = ends.1 ∨ y = ends.2 := by
            simpa [Object.role, Role.references, hc] using hy
          exact .ends (by simp [concept?, ho, Body.concept?]) hc hy
      | diagramObject d =>
        have hy : d.shows.subject? = some y := by
          simpa [Object.role, Role.references, Shown.subject?_outline] using hy
        exact .shows (by simp [diagramObject?, ho, Body.diagramObject?])
          (Shown.subject?_eq_some.1 hy)
      | connection c =>
        have hx : m.connection? x = some c := by simp [connection?, ho, Body.connection?]
        have hy : (y = c.source ∨ y = c.target) ∨ c.relationship = some y := by
          simpa [Object.role, Role.references, or_assoc] using hy
        rcases hy with hy | hy
        · exact .connects hx (hy.imp Eq.symm Eq.symm)
        · exact .draws hx hy

theorem DependsOn.contains (h : m.DependsOn x y) : m.contains x = true := by
  have hget : ∃ o, m.get? x = some o := by
    cases h with
    | owned hy => exact (Option.bind_eq_some_iff.1 hy).imp fun _ h => h.1
    | ends hx _ _ => exact (Option.bind_eq_some_iff.1 hx).imp fun _ h => h.1
    | shows hx _ => exact (Option.bind_eq_some_iff.1 hx).imp fun _ h => h.1
    | draws hx _ => exact (Option.bind_eq_some_iff.1 hx).imp fun _ h => h.1
    | connects hx _ => exact (Option.bind_eq_some_iff.1 hx).imp fun _ h => h.1
  exact contains_iff_get?.2 hget

/-! ## The search finds what depends on an object -/

theorem isConnection_of_get? {c : Connection} (ho : m.get? k = some o)
    (hc : o.body = .connection c) : m.isConnection k = true := by
  simp [isConnection, connection?, ho, hc, Body.connection?]

theorem mem_connectionsAt (h : m.Consistent) {c : Connection} (hx : m.connection? x = some c)
    (hy : c.source = y ∨ c.target = y) : x ∈ m.connectionsAt y := by
  obtain ⟨o, ho, hc⟩ := Option.bind_eq_some_iff.1 hx
  have hbody := Body.eq_of_connection? hc
  have hrole : o.role = .connection c.relationship c.source c.target o.owner := by
    rw [Object.role, hbody]
  obtain ⟨p, hown, hp⟩ := (h.fits ho).exists_owner (by simp [hrole])
  rw [hrole] at hp
  obtain ⟨q, hq, hqd⟩ := hp.2 y (by rcases hy with rfl | rfl <;> simp)
  obtain ⟨oy, hoy, rfl⟩ := get?_of_role? hq
  rw [Object.drawnOn?_role] at hqd
  have hview : m.role? p = some .view := h.drawn hq (oy.drawnOn?_role.trans hqd)
  obtain ⟨ov, hov, hovr⟩ := get?_of_role? hview
  have hisview : (m.view? p).isSome = true := by
    obtain ⟨id, owner, body⟩ := ov
    cases body <;> cases hovr
    simp [view?, hov, Body.view?]
  have howned : x ∈ m.outgoing .contains p :=
    (h.links.mem_outgoing_contains (contains_of_get? hov)).2 ((owner?_of_get? ho).trans hown)
  simp only [connectionsAt, hoy, Option.bind_some, hqd, List.mem_filter, viewConnections, hisview,
    if_true, hx]
  exact ⟨⟨howned, isConnection_of_get? ho hbody⟩, by simpa using hy⟩

theorem connects_of_mem_connectionsAt (h : x ∈ m.connectionsAt y) : m.DependsOn x y := by
  unfold connectionsAt at h
  split at h
  · obtain ⟨-, h⟩ := List.mem_filter.1 h
    cases hx : m.connection? x with
    | none => simp [hx] at h
    | some c =>
      rw [hx] at h
      exact .connects hx (by simpa using h)
  · cases h

/-- What an object refers to it is linked to, but for the ends of a connection that is detached. -/
theorem exists_end?_of_mem_references (hy : y ∈ o.role.references) :
    (∃ kind, kind ≠ .contains ∧ o.body.end? kind = some y) ∨
      ∃ c, o.body = .connection c ∧ (c.source = y ∨ c.target = y) := by
  obtain ⟨id, owner, body⟩ := o
  cases body with
  | folder f => cases hy
  | view v => cases hy
  | concept c =>
    cases hc : c.kind.ends? with
    | none => simp [Object.role, Role.references, hc] at hy
    | some ends =>
      have hy : y = ends.1 ∨ y = ends.2 := by
        simpa [Object.role, Role.references, hc] using hy
      rcases hy with rfl | rfl
      · exact .inl ⟨.source, by decide, by simp [Body.end?, hc]⟩
      · exact .inl ⟨.target, by decide, by simp [Body.end?, hc]⟩
  | diagramObject d =>
    have hy : d.shows.subject? = some y := by
      simpa [Object.role, Role.references, Shown.subject?_outline] using hy
    exact .inl ⟨.shows, by decide, hy⟩
  | connection c =>
    have hy : (y = c.source ∨ y = c.target) ∨ c.relationship = some y := by
      simpa [Object.role, Role.references, or_assoc] using hy
    rcases hy with hy | hy
    · exact .inr ⟨c, rfl, hy.imp Eq.symm Eq.symm⟩
    · exact .inl ⟨.shows, by decide, hy⟩

/-- The search looks up all that depends on an object, and nothing else. -/
theorem Consistent.mem_dependents (h : m.Consistent) (hy : m.contains y = true) :
    x ∈ m.dependents y ↔ m.DependsOn x y := by
  have hrefers {kind : LinkKind} (hkind : kind ≠ .contains) (hx : x ∈ m.incoming kind y) :
      m.DependsOn x y := by
    rw [h.links.mem_incoming_of_ne hy hkind] at hx
    obtain ⟨o, ho, hend⟩ := Option.bind_eq_some_iff.1 hx
    exact (dependsOn_iff ho).2 (.inr (mem_references_of_end? hend))
  constructor
  · intro hx
    simp only [dependents, List.mem_append] at hx
    rcases hx with (((hx | hx) | hx) | hx) | hx
    · exact .owned ((h.links.mem_outgoing_contains hy).1 hx)
    · exact hrefers (by decide) hx
    · exact hrefers (by decide) hx
    · exact hrefers (by decide) hx
    · exact connects_of_mem_connectionsAt hx
  · intro hx
    obtain ⟨o, ho⟩ := contains_iff_get?.1 hx.contains
    simp only [dependents, List.mem_append]
    rcases (dependsOn_iff ho).1 hx with hown | href
    · exact .inl (.inl (.inl (.inl
        ((h.links.mem_outgoing_contains hy).2 ((owner?_of_get? ho).trans hown)))))
    · rcases exists_end?_of_mem_references href with ⟨kind, hkind, hend⟩ | ⟨c, hc, hends⟩
      · have hin : x ∈ m.incoming kind y :=
          (h.links.mem_incoming_of_ne hy hkind).2 (Option.bind_eq_some_iff.2 ⟨o, ho, hend⟩)
        cases kind with
        | contains => exact absurd rfl hkind
        | source => exact .inl (.inl (.inl (.inr hin)))
        | target => exact .inl (.inl (.inr hin))
        | shows => exact .inl (.inr hin)
      · have hx : m.connection? x = some c := by simp [connection?, ho, hc, Body.connection?]
        exact .inr (mem_connectionsAt h hx hends)

/-! ## The search ends with the least closed set -/

/-- Nothing outside of a set depends on what is in the set. -/
def IsClosed (m : Model) (s : Set Key) : Prop := ∀ x y, y ∈ s → m.DependsOn x y → x ∈ s

/-- What is found is in every closed set that holds what the search starts from. -/
theorem Consistent.close_subset (h : m.Consistent) {s : Set Key} (hs : m.IsClosed s)
    (pending found : List Key) (hp : ∀ x ∈ pending, x ∈ s) (hf : ∀ x ∈ found, x ∈ s) :
    ∀ x ∈ m.close pending found, x ∈ s := by
  fun_induction m.close pending found with
  | case1 found => exact hf
  | case2 found k rest hk ih =>
    have hks : k ∈ s := hp k List.mem_cons_self
    refine ih (fun x hx => ?_) fun x hx => ?_
    · rcases List.mem_append.1 hx with hx | hx
      · exact hs x k hks ((h.mem_dependents hk.1).1 hx)
      · exact hp x (List.mem_cons_of_mem _ hx)
    · rcases List.mem_cons.1 hx with rfl | hx
      · exact hks
      · exact hf x hx
  | case3 found k rest hk ih => exact ih (fun x hx => hp x (List.mem_cons_of_mem _ hx)) hf

theorem subset_close (m : Model) (pending found : List Key) :
    ∀ x ∈ found, x ∈ m.close pending found := by
  fun_induction m.close pending found with
  | case1 found => exact fun _ hx => hx
  | case2 found k rest hk ih => exact fun x hx => ih x (List.mem_cons_of_mem _ hx)
  | case3 found k rest hk ih => exact ih

theorem pending_subset_close (m : Model) (pending found : List Key) :
    ∀ x ∈ pending, m.contains x = true → x ∈ m.close pending found := by
  fun_induction m.close pending found with
  | case1 found => exact fun _ hx => nomatch hx
  | case2 found k rest hk ih =>
    intro x hx hlive
    rcases List.mem_cons.1 hx with rfl | hx
    · exact m.subset_close _ _ x List.mem_cons_self
    · exact ih x (List.mem_append_right _ hx) hlive
  | case3 found k rest hk ih =>
    intro x hx hlive
    rcases List.mem_cons.1 hx with rfl | hx
    · have hfound : x ∈ found := Decidable.not_not.1 fun hx => hk ⟨hlive, hx⟩
      exact m.subset_close _ _ x hfound
    · exact ih x hx hlive

/-- What depends on something found has been found or is still to be looked at; at the end nothing is
left to look at. -/
theorem Consistent.close_closed (h : m.Consistent) (pending found : List Key)
    (hf : ∀ y ∈ found, ∀ x, m.DependsOn x y → x ∈ found ∨ x ∈ pending) :
    m.IsClosed {x | x ∈ m.close pending found} := by
  fun_induction m.close pending found with
  | case1 found =>
    intro x y hy hx
    exact (hf y hy x hx).resolve_right List.not_mem_nil
  | case2 found k rest hk ih =>
    refine ih fun y hy x hx => ?_
    rcases List.mem_cons.1 hy with rfl | hy
    · exact .inr (List.mem_append_left _ ((h.mem_dependents hk.1).2 hx))
    · rcases hf y hy x hx with hx | hx
      · exact .inl (List.mem_cons_of_mem _ hx)
      · rcases List.mem_cons.1 hx with rfl | hx
        · exact .inl List.mem_cons_self
        · exact .inr (List.mem_append_right _ hx)
  | case3 found k rest hk ih =>
    refine ih fun y hy x hx => ?_
    rcases hf y hy x hx with hmem | hmem
    · exact .inl hmem
    · rcases List.mem_cons.1 hmem with rfl | hmem
      · exact .inl (Decidable.not_not.1 fun hnot => hk ⟨hx.contains, hnot⟩)
      · exact .inr hmem

/-- Every object is found once. -/
theorem close_nodup (m : Model) (pending found : List Key) (hf : found.Nodup)
    (hlive : ∀ x ∈ found, m.contains x = true) :
    (m.close pending found).Nodup ∧ ∀ x ∈ m.close pending found, m.contains x = true := by
  fun_induction m.close pending found with
  | case1 found => exact ⟨hf, hlive⟩
  | case2 found k rest hk ih =>
    refine ih (List.nodup_cons.2 ⟨hk.2, hf⟩) fun x hx => ?_
    rcases List.mem_cons.1 hx with rfl | hx
    · exact hk.1
    · exact hlive x hx
  | case3 found k rest hk ih => exact ih hf hlive

theorem doomed_nodup (m : Model) (k : Key) : (m.doomed k).Nodup :=
  (m.close_nodup [k] [] List.nodup_nil fun _ hx => nomatch hx).1

theorem contains_of_mem_doomed (hx : x ∈ m.doomed k) : m.contains x = true :=
  (m.close_nodup [k] [] List.nodup_nil fun _ hx => nomatch hx).2 x hx

namespace Consistent

theorem doomed_closed (h : m.Consistent) (k : Key) : m.IsClosed {x | x ∈ m.doomed k} :=
  h.close_closed [k] [] fun _ hy => nomatch hy

/-- What goes with an object is the least closed set that holds the object. -/
theorem doomed_least (h : m.Consistent) (hk : m.contains k = true) :
    IsLeast {s : Set Key | k ∈ s ∧ m.IsClosed s} {x | x ∈ m.doomed k} := by
  refine ⟨⟨m.pending_subset_close [k] [] k List.mem_cons_self hk, h.doomed_closed k⟩, ?_⟩
  intro s hs x hx
  refine h.close_subset hs.2 [k] [] (fun y hy => ?_) (fun _ hy => nomatch hy) x hx
  rw [List.mem_singleton.1 hy]
  exact hs.1

end Consistent

/-- No top-level folder goes with another object. -/
theorem Sound.not_mem_doomed (h : m.Sound) (hk : k ∉ m.topLevelKeys) (hx : x ∈ m.topLevelKeys) :
    x ∉ m.doomed k := by
  have hclosed : m.IsClosed {y | y ∉ m.topLevelKeys} := by
    intro a b _ hdep ha
    obtain ⟨⟨t, a'⟩, hmem, rfl⟩ := List.mem_map.1 ha
    obtain ⟨o, ho, hrole⟩ := get?_of_role? (h.top.role hmem)
    have hown := ((h.top.mem_iff a').1 ha).2
    rw [owner?_of_get? ho] at hown
    rcases (dependsOn_iff ho).1 hdep with hb | hb
    · rw [hown] at hb
      cases hb
    · rw [hrole] at hb
      cases hb
  intro hmem
  refine h.close_subset hclosed [k] [] (fun y hy => ?_) (fun _ hy => nomatch hy) x hmem hx
  rw [List.mem_singleton.1 hy]
  exact hk

end ModelLabels.Model
