import ModelLabels.Proofs.Transition
/-! # Refused operations leave no trace

An operation that is refused leaves the model as it was, its counters included.  So a run comes to the
same, answer by answer, when the operations that are refused in it are left out.

* `Model.applyAll`: what a run of operations answers, and the model it ends with.
* `Model.accepted`: the operations of a run that are not refused.
* `applyAll_accepted`: a run without its refused operations.
-/

namespace ModelLabels.Model
set_option autoImplicit false

variable {m : Model} {op : Operation} {e : EditError}

theorem apply_snd_of_error (h : (m.apply op).1 = .error e) : (m.apply op).2 = m := by
  unfold apply at h ⊢
  cases hrun : op.run m with
  | ok answer n =>
    rw [hrun] at h
    cases h
  | error d n => exact op.isAtomic_run m n d hrun

/-- What the operations of a run answer, one after the other, and the model that the run ends with. -/
def applyAll (m : Model) : List Operation → List (Except EditError Operation.Answer) × Model
  | [] => ([], m)
  | op :: ops =>
    let rest := (m.apply op).2.applyAll ops
    ((m.apply op).1 :: rest.1, rest.2)

/-- The operations of a run that are accepted, each by the model that it finds. -/
def accepted (m : Model) : List Operation → List Operation
  | [] => []
  | op :: ops =>
    if (m.apply op).1.isOk then op :: (m.apply op).2.accepted ops else (m.apply op).2.accepted ops

/-- A run without the operations that are refused in it ends with the same model, and its answers are
those that were no refusals. -/
theorem applyAll_accepted (m : Model) (ops : List Operation) :
    m.applyAll (m.accepted ops) =
      ((m.applyAll ops).1.filter (·.isOk), (m.applyAll ops).2) := by
  induction ops generalizing m with
  | nil => rfl
  | cons op ops ih =>
    cases hop : (m.apply op).1 with
    | ok answer => simp [accepted, applyAll, hop, Except.isOk, Except.toBool, ih]
    | error e =>
      have hsame : (m.apply op).2 = m := apply_snd_of_error hop
      simp [accepted, applyAll, hop, Except.isOk, Except.toBool, hsame, ih]

/-- A refused operation leaves the model as it was, and whatever is done before or after it comes out as
if it had not been tried. -/
theorem refusals_leave_no_trace (m : Model) :
    (∀ op e, (m.apply op).1 = .error e → (m.apply op).2 = m) ∧
    ∀ ops, m.applyAll (m.accepted ops) =
      ((m.applyAll ops).1.filter (·.isOk), (m.applyAll ops).2) :=
  ⟨fun _ _ h => apply_snd_of_error h, m.applyAll_accepted⟩

/-- A group does not move into itself, and the note that is added after the attempt gets the key and the
identifier that it gets without it. -/
theorem refusals_leave_no_trace_cycle :
    let view := (new 1 "Plan").nextKey
    let m₁ := ((new 1 "Plan").apply (.addView "Map")).2
    let m := (m₁.apply (.addGroup view "Area")).2
    let group := m₁.nextKey
    (∃ id, (m.apply (.moveTo group group)).1 = .error (.cycle id)) ∧
      (m.apply (.moveTo group group)).2 = m ∧
      m.applyAll [.addNote group "here"] =
        ((m.applyAll [.moveTo group group, .setId group "", .addNote group "here"]).1.filter (·.isOk),
          (m.applyAll [.moveTo group group, .setId group "", .addNote group "here"]).2) := by
  intro view m₁ m group
  have hcycle : (m.apply (.moveTo group group)).1 = .error (.cycle m₁.freshId.1) := by rfl
  have haccepted : m.accepted [.moveTo group group, .setId group "", .addNote group "here"] =
      [.addNote group "here"] := by decide
  obtain ⟨hsame, hrun⟩ := m.refusals_leave_no_trace
  exact ⟨⟨_, hcycle⟩, hsame _ _ hcycle, haccepted ▸ hrun _⟩

end ModelLabels.Model
