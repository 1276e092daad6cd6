import ModelLabels.Proofs.Integrity.Preservation
/-! # Which moves are let through

An object moves to any owner that may hold it, unless the owner is the object itself or lies below it.

* `Consistent.checkMove_eq`: the answer of the check, where nothing but a cycle can stand against a move.
* `Model.AdmitsMove`: where an object may move; `Consistent.checkMove_eq_ok_iff`.
* `Model.apply_moveTo`: a move is the check and the change.
-/

namespace ModelLabels.Model
set_option autoImplicit false

variable {m : Model} {k p : Key} {o : Object}

/-- An object may move if it is neither a top-level folder nor a connection, to an owner that may hold
it and does not lie below it. -/
def AdmitsMove (m : Model) (k p : Key) : Prop :=
  ∃ o, m.get? k = some o ∧ o.owner ≠ none ∧ o.role.isConnection = false ∧ m.Holds p o.role ∧
    ¬ m.Within p k

theorem requireFolder_of_role? {t r : FolderType} (h : m.role? p = some (.folder t r)) :
    ∃ holder f, m.requireFolder p = .ok (holder, f) ∧ f.rootType = r := by
  obtain ⟨⟨id, owner, body⟩, ho, hr⟩ := get?_of_role? h
  cases body <;> cases hr
  exact ⟨_, _, requirePart_eq_ok.2 ⟨ho, rfl⟩, rfl⟩

theorem requireAccepting_of_role? {t : FolderType} {c : Category} (what : String)
    (h : m.role? p = some (.folder t (.forCategory c))) : m.requireAccepting p c what = .ok () := by
  obtain ⟨holder, f, hf, hroot⟩ := requireFolder_of_role? h
  simp [requireAccepting, hf, Folder.accepts, hroot]

theorem requireContainer_of_holds {s : Shown} {v : Key} (h : m.Holds p (.diagramObject s v)) :
    ∃ holder, m.requireContainer p = .ok (holder, v) := by
  rcases h with ⟨hview, rfl⟩ | ⟨s', hs'⟩
  · obtain ⟨⟨id, owner, body⟩, ho, hr⟩ := get?_of_role? hview
    cases body <;> cases hr
    exact ⟨_, requirePart_eq_ok.2 ⟨ho, rfl⟩⟩
  · obtain ⟨⟨id, owner, body⟩, ho, hr⟩ := get?_of_role? hs'
    cases body <;> cases hr
    exact ⟨_, requirePart_eq_ok.2 ⟨ho, rfl⟩⟩

theorem Holds.isWithin_iff {r : Role} (hp : m.Holds p r) (h : m.Consistent) :
    m.isWithin p k = true ↔ m.Within p k := by
  obtain ⟨q, hq, -⟩ := hp.owner_role h.drawn
  obtain ⟨d, hd⟩ := h.rooted p (contains_of_role? hq)
  exact hd.isWithin_iff

/-- Where the new owner may hold the object, the search over its owners decides alone. -/
theorem Consistent.checkMove_eq (h : m.Consistent) (ho : m.get? k = some o) (hown : o.owner ≠ none)
    (hc : o.role.isConnection = false) (hp : m.Holds p o.role) :
    m.checkMove k p = if m.isWithin p k then .error (.cycle o.id) else .ok () := by
  have htop : o.isTopLevel = false := by
    rw [Bool.eq_false_iff, ne_eq, (h.fits ho).isTopLevel_iff]
    exact hown
  -- What is not searched for, since it is never found.
  have hnever (hr : (∀ t r, o.role ≠ .folder t r) ∧ ∀ s v, o.role ≠ .diagramObject s v) :
      m.isWithin p k = false := by
    rw [Bool.eq_false_iff, ne_eq, hp.isWithin_iff h]
    refine h.not_within_of_holds ho hp hc ?_
    rintro (⟨t, r, hrole⟩ | ⟨s, v, hrole⟩)
    · exact absurd hrole (hr.1 t r)
    · exact absurd hrole (hr.2 s v)
  unfold checkMove
  rw [require_eq_ok.2 ho]
  obtain ⟨id, owner, body⟩ := o
  cases body with
  | folder f =>
    obtain ⟨t, ht⟩ := hp
    obtain ⟨holder, g, hg, hroot⟩ := requireFolder_of_role? ht
    simp [bind, Except.bind, htop, hg, hroot, pure, Except.pure, throw, throwThe, MonadExceptOf.throw]
  | concept c =>
    obtain ⟨t, ht⟩ := hp
    rw [hnever (by simp [Object.role])]
    exact requireAccepting_of_role? _ ht
  | view v =>
    obtain ⟨t, ht⟩ := hp
    obtain ⟨holder, g, hg, hroot⟩ := requireFolder_of_role? ht
    rw [hnever (by simp [Object.role])]
    simp [bind, Except.bind, hg, Folder.isViewFolder, hroot, pure, Except.pure]
  | diagramObject d =>
    obtain ⟨holder, hholder⟩ := requireContainer_of_holds hp
    simp [bind, Except.bind, hholder, pure, Except.pure, throw, throwThe, MonadExceptOf.throw]
  | connection c => cases hc

theorem Consistent.checkMove_eq_ok_iff (h : m.Consistent) :
    m.checkMove k p = .ok () ↔ m.AdmitsMove k p := by
  constructor
  · intro hcheck
    obtain ⟨o, ho, htop, hp, hc, hw⟩ := of_checkMove hcheck
    refine ⟨o, ho, fun hown => ?_, hc, hp, h.not_within_of_holds ho hp hc hw⟩
    rw [(h.fits ho).isTopLevel_iff.2 hown] at htop
    cases htop
  · rintro ⟨o, ho, hown, hc, hp, hnot⟩
    rw [h.checkMove_eq ho hown hc hp, if_neg (mt (hp.isWithin_iff h).1 hnot)]

theorem apply_moveTo (m : Model) (k p : Key) : m.apply (.moveTo k p) =
    match m.checkMove k p with
    | .ok _ => (.ok .done, m.moved k p)
    | .error e => (.error e, m) := by
  rw [apply, Operation.run, Edit.map_apply, Edit.moveTo_apply]
  cases m.checkMove k p <;> rfl

end ModelLabels.Model
