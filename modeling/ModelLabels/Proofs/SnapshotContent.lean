import ModelLabels.Navigation
import ModelLabels.Proofs.Containment
/-! # What a snapshot holds

A snapshot is filled object by object on one walk.  Each object adds what it says of a concept to what
the snapshot holds for it, and leaves the rest alone; so what is held in the end is read off the walk.

* `Snapshot.relationships_of`: the relationships of a concept, in the order of the walk.
* `Snapshot.mem_views_of`: the views that show a concept.
* `Model.Sound.mem_relationships`, `Sound.mem_views`: the same for a model in order.
-/

namespace ModelLabels
set_option autoImplicit false

namespace Model

/-- Whether an object is a relationship from or to a concept. -/
def touches (m : Model) (concept k : Key) : Bool :=
  match m.ends? k with
  | some (source, target) => source = concept || target = concept
  | none => false

/-- Whether an object of a view shows a concept there. -/
def ShowsOn (m : Model) (k concept view : Key) : Prop :=
  ∃ o, m.get? k = some o ∧ o.body.depicted? = some concept ∧ o.drawnOn? = some view

end Model

namespace Snapshot
variable {m : Model} {s : Snapshot} {c k v : Key}

/-! ## One object -/

theorem getD_noteRelationship (s : Snapshot) (e r c : Key) :
    (s.noteRelationship e r).relationships.getD c [] =
      s.relationships.getD c [] ++ if e = c then [r] else [] := by
  simp only [noteRelationship, Std.HashMap.getD_insert, beq_iff_eq]
  by_cases h : e = c
  · rw [if_pos h, if_pos h, h]
  · rw [if_neg h, if_neg h, List.append_nil]

theorem getD_noteEnds (s : Snapshot) (k c : Key) (ends : Option (Key × Key)) :
    (s.noteEnds k ends).relationships.getD c [] = s.relationships.getD c [] ++
      match ends with
      | some (source, target) => if source = c ∨ target = c then [k] else []
      | none => [] := by
  cases ends with
  | none => exact (List.append_nil _).symm
  | some ends =>
    obtain ⟨source, target⟩ := ends
    by_cases h : target = source
    · subst h
      simp [noteEnds, getD_noteRelationship]
    · -- The ends differ, so at most one of them is the concept.
      simp only [noteEnds, if_neg h, getD_noteRelationship, List.append_assoc]
      congr 1
      by_cases hs : source = c <;> by_cases ht : target = c
      · exact absurd (ht.trans hs.symm) h
      all_goals simp [hs, ht]

theorem relationships_noteView (s : Snapshot) (concept view : Key) :
    (s.noteView concept view).relationships = s.relationships := by
  unfold noteView
  dsimp only
  split <;> rfl

theorem mem_noteView {concept view : Key} : v ∈ (s.noteView concept view).views.getD c [] ↔
    v ∈ s.views.getD c [] ∨ concept = c ∧ view = v := by
  unfold noteView
  dsimp only
  split
  · rename_i hmem
    constructor
    · exact .inl
    · rintro (hv | ⟨rfl, rfl⟩)
      · exact hv
      · exact hmem
  · rw [Std.HashMap.getD_insert]
    by_cases h : concept = c
    · simp [h, eq_comm]
    · simp [h]

theorem views_noteEnds (s : Snapshot) (k : Key) (ends : Option (Key × Key)) :
    (s.noteEnds k ends).views = s.views := by
  unfold noteEnds
  split
  · split <;> rfl
  · rfl

/-- Enter that something shows a concept on a view, where it does. -/
def noteShown (s : Snapshot) : Option Key → Option Key → Snapshot
  | some concept, some view => s.noteView concept view
  | _, _ => s

theorem relationships_noteShown (s : Snapshot) (concept? view? : Option Key) :
    (s.noteShown concept? view?).relationships = s.relationships := by
  unfold noteShown
  split
  · exact relationships_noteView s _ _
  · rfl

theorem mem_noteShown {concept? view? : Option Key} :
    v ∈ (s.noteShown concept? view?).views.getD c [] ↔
      v ∈ s.views.getD c [] ∨ concept? = some c ∧ view? = some v := by
  cases concept? with
  | none => simp [noteShown]
  | some concept =>
    cases view? with
    | none => simp [noteShown]
    | some view => simp [noteShown, mem_noteView]

/-- What an object is not leaves the snapshot as it is, so every object can be entered as both. -/
theorem note_eq_noteShown (s : Snapshot) (k : Key) (o : Object) :
    s.note k o = ({ s with byId := s.byId.insert o.id k }.noteEnds k
      (o.body.concept?.bind (·.kind.ends?))).noteShown o.body.depicted? o.drawnOn? := by
  obtain ⟨id, owner, body⟩ := o
  cases body with
  | concept c => rfl
  | folder f => rfl
  | view f => rfl
  | diagramObject d =>
    obtain ⟨shows, view⟩ := d
    cases shows <;> rfl
  | connection l =>
    obtain ⟨caption, relationship, source, target, isConnected⟩ := l
    cases relationship <;> cases owner <;> rfl

theorem getD_visit (m : Model) (s : Snapshot) (k c : Key) :
    (visit m s k).relationships.getD c [] =
      s.relationships.getD c [] ++ if m.touches c k then [k] else [] := by
  unfold visit Model.touches Model.ends? Model.concept?
  cases m.get? k with
  | none => simp
  | some o =>
    dsimp only
    rw [note_eq_noteShown, relationships_noteShown, getD_noteEnds, Option.bind_some]
    cases o.body.concept?.bind (·.kind.ends?) <;> simp

theorem mem_visit : v ∈ (visit m s k).views.getD c [] ↔
    v ∈ s.views.getD c [] ∨ m.ShowsOn k c v := by
  unfold visit Model.ShowsOn
  cases m.get? k with
  | none => simp
  | some o =>
    dsimp only
    rw [note_eq_noteShown, mem_noteShown, views_noteEnds]
    simp

/-! ## The whole walk -/

theorem getD_foldl_visit (m : Model) (ks : List Key) (s : Snapshot) (c : Key) :
    (ks.foldl (visit m) s).relationships.getD c [] =
      s.relationships.getD c [] ++ ks.filter (m.touches c) := by
  induction ks generalizing s with
  | nil => simp
  | cons k ks ih =>
    rw [List.foldl_cons, ih, getD_visit, List.append_assoc, List.filter_cons]
    split <;> rfl

theorem mem_foldl_visit {ks : List Key} : v ∈ (ks.foldl (visit m) s).views.getD c [] ↔
    v ∈ s.views.getD c [] ∨ ∃ k ∈ ks, m.ShowsOn k c v := by
  induction ks generalizing s with
  | nil => simp
  | cons k ks ih => rw [List.foldl_cons, ih, mem_visit, or_assoc, List.exists_mem_cons_iff]

/-- A snapshot holds the relationships that touch a concept, in the order of the walk. -/
theorem relationships_of (m : Model) (c : Key) :
    (of m).relationships.getD c [] = m.walk.filter (m.touches c) := by
  rw [of, getD_foldl_visit]
  simp [start]

/-- A snapshot holds the views on which something that the walk meets shows a concept. -/
theorem mem_views_of : v ∈ (of m).views.getD c [] ↔ ∃ k ∈ m.walk, m.ShowsOn k c v := by
  rw [of, mem_foldl_visit]
  simp [start]

end Snapshot

namespace Model
variable {m : Model} {c v x : Key}

theorem Sound.mem_relationships (h : m.Sound) :
    x ∈ (Snapshot.of m).relationships.getD c [] ↔ m.touches c x = true := by
  rw [Snapshot.relationships_of, List.mem_filter, and_iff_right_of_imp]
  intro htouches
  refine (h.walkExact.mem_iff x).2 ?_
  unfold touches at htouches
  split at htouches
  · rename_i hends
    obtain ⟨concept, hconcept, -⟩ := Option.bind_eq_some_iff.1 hends
    obtain ⟨o, ho, -⟩ := Option.bind_eq_some_iff.1 hconcept
    exact contains_of_get? ho
  · cases htouches

theorem Sound.mem_views (h : m.Sound) :
    v ∈ (Snapshot.of m).views.getD c [] ↔ ∃ k, m.ShowsOn k c v := by
  rw [Snapshot.mem_views_of]
  constructor
  · exact fun ⟨k, _, hk⟩ => ⟨k, hk⟩
  · rintro ⟨k, o, ho, hshows⟩
    exact ⟨k, (h.walkExact.mem_iff k).2 (contains_of_get? ho), o, ho, hshows⟩

end Model

end ModelLabels
