import ModelLabels.Navigation
import ModelLabels.Proofs.IndexCoherence
/-! # Answers do not depend on the index

An index only remembers.  Whatever is worked out with its help comes to the same with every index that
may be asked about the model.

* `GraphIndex.Serves`: the indexes that may be asked about a model; `Serves.read_fst`.
* `GraphIndex.Steady`: what comes to the same with all of them.
* `steady_navigate`: a route leads to the same target with all of them.
-/

namespace ModelLabels
set_option autoImplicit false

variable {m : Model} {ix : GraphIndex}

/-! ## Indexes that may be asked about a model -/

namespace GraphIndex

/-- The indexes that may be asked about a model: one that was never asked, one that was asked about
the model, and one of a session that has the model. -/
inductive Serves (m : Model) : GraphIndex → Prop where
  | empty : Serves m empty
  | read {ix : GraphIndex} (h : Serves m ix) : Serves m (read m ix).2
  | session {s : Session} {name : String} (hs : s.Reachable)
      (hm : s.workspace.get? name = some m) : Serves m s.index

/-- A model that was read is not read anew. -/
theorem read_read (m : Model) (ix : GraphIndex) :
    GraphIndex.read m (GraphIndex.read m ix).2 = GraphIndex.read m ix := by
  cases hc : ix.current? m with
  | some s =>
    have hread : GraphIndex.read m ix = (s, ix) := by
      unfold GraphIndex.read
      rw [hc]
    rw [hread]
    exact hread
  | none =>
    have hread : GraphIndex.read m ix = (Snapshot.of m, ⟨some (Snapshot.of m), ix.rebuilds + 1⟩) := by
      unfold GraphIndex.read
      rw [hc]
    have hagain : current? ⟨some (Snapshot.of m), ix.rebuilds + 1⟩ m = some (Snapshot.of m) := by
      simp [current?, Option.filter_some, Snapshot.stamp_of]
    rw [hread]
    unfold GraphIndex.read
    rw [hagain]

/-- What such an index reads of the model is the model's own snapshot. -/
theorem Serves.read_fst (h : ix.Serves m) : (GraphIndex.read m ix).1 = Snapshot.of m := by
  induction h with
  | empty => rfl
  | read _ ih => rw [read_read, ih]
  | session hs hm => exact hs.coherent.read_fst hm

theorem Serves.of_eq_or_read (h : ix.Serves m) {jx : GraphIndex}
    (hj : jx = ix ∨ jx = (GraphIndex.read m ix).2) : jx.Serves m := by
  rcases hj with rfl | rfl
  · exact h
  · exact .read h

/-- Reading a second time changes nothing, so what reads at most once, twice in a row, reads at most
once. -/
theorem eq_or_read_trans {jx lx : GraphIndex} (hj : jx = ix ∨ jx = (GraphIndex.read m ix).2)
    (hl : lx = jx ∨ lx = (GraphIndex.read m jx).2) : lx = ix ∨ lx = (GraphIndex.read m ix).2 := by
  rcases hj with rfl | rfl
  · exact hl
  · rw [read_read] at hl
    exact .inr (hl.elim id id)

theorem Serves.relationshipsOf_fst (h : ix.Serves m) (concept : Key) :
    (relationshipsOf m concept ix).1 = (Snapshot.of m).relationships.getD concept [] :=
  congrArg (·.relationships.getD concept []) h.read_fst

theorem Serves.referencingViews_fst (h : ix.Serves m) (concept : Key) :
    (referencingViews m concept ix).1 = (Snapshot.of m).views.getD concept [] :=
  congrArg (·.views.getD concept []) h.read_fst

/-! ## Answers that all of them give -/

/-- Whether something comes to the same with every index that may be asked about a model, and does no
more to the index than to read the model. -/
def Steady {α : Type} (m : Model) (f : StateM GraphIndex α) : Prop :=
  ∃ a, ∀ ix, ix.Serves m → (f ix).1 = a ∧ ((f ix).2 = ix ∨ (f ix).2 = (GraphIndex.read m ix).2)

namespace Steady
variable {α β : Type} {f : StateM GraphIndex α} {g : α → StateM GraphIndex β}

theorem pure (a : α) : Steady m (Pure.pure a) := ⟨a, fun _ _ => ⟨rfl, .inl rfl⟩⟩

theorem read : Steady m (GraphIndex.read m) := ⟨Snapshot.of m, fun _ h => ⟨h.read_fst, .inr rfl⟩⟩

theorem serves (hf : Steady m f) (h : ix.Serves m) : (f ix).2.Serves m := by
  obtain ⟨a, ha⟩ := hf
  exact h.of_eq_or_read (ha ix h).2

theorem bind (hf : Steady m f) (hg : ∀ a, Steady m (g a)) : Steady m (f >>= g) := by
  have ⟨a, ha⟩ := hf
  have ⟨b, hb⟩ := hg a
  refine ⟨b, fun ix h => ?_⟩
  have hrun : (f >>= g) ix = g (f ix).1 (f ix).2 := rfl
  obtain ⟨hfst, hsnd⟩ := ha ix h
  obtain ⟨hanswer, hafter⟩ := hb _ (hf.serves h)
  rw [hrun, hfst]
  exact ⟨hanswer, eq_or_read_trans hsnd hafter⟩

/-- With any such index, the answer is that of an index that was never asked. -/
theorem fst_eq (hf : Steady m f) (h : ix.Serves m) : (f ix).1 = (f .empty).1 := by
  obtain ⟨a, ha⟩ := hf
  rw [(ha ix h).1, (ha .empty .empty).1]

theorem bind_fst (hf : Steady m f) (hg : ∀ a, Steady m (g a)) (h : ix.Serves m) :
    ((f >>= g) ix).1 = (g (f .empty).1 .empty).1 := by
  have hrun : (f >>= g) ix = g (f ix).1 (f ix).2 := rfl
  rw [hrun, (hg _).fst_eq (hf.serves h), hf.fst_eq h]

theorem relationshipsOf (concept : Key) : Steady m (GraphIndex.relationshipsOf m concept) :=
  .bind .read fun _ => .pure _

theorem referencingViews (concept : Key) : Steady m (GraphIndex.referencingViews m concept) :=
  .bind .read fun _ => .pure _

end Steady

end GraphIndex

/-! ## Navigation -/

open GraphIndex

theorem steady_enclosingView? (m : Model) (k : Key) : Steady m (enclosingView? m k) := by
  unfold enclosingView?
  cases m.get? k with
  | none => exact .pure none
  | some o =>
    obtain ⟨id, owner, body⟩ := o
    cases body with
    | concept _ => exact .bind (.referencingViews k) fun _ => .pure _
    | _ => exact .pure _

theorem steady_enclosingFolder? (m : Model) (k : Key) : Steady m (enclosingFolder? m k) := by
  refine .bind (steady_enclosingView? m k) fun view => ?_
  cases view with
  | none => exact .pure _
  | some view => exact .pure _

theorem steady_relatedEnd? (m : Model) (k : Key) (r : Relation) (e : Endpoint) :
    Steady m (relatedEnd? m k r e) := by
  unfold relatedEnd?
  split
  · exact .bind (.relationshipsOf _) fun _ => .pure _
  · exact .pure none

theorem steady_stepAlong? (m : Model) (k : Key) (w : Keyword) : Steady m (stepAlong? m k w) := by
  cases w with
  | viewFolder => exact steady_enclosingFolder? m k
  | view => exact steady_enclosingView? m k
  | _ => exact .pure _

theorem steady_navigate (m : Model) (root : Target) (route : Route) :
    Steady m (navigate m root route) := by
  unfold navigate
  split
  · exact .pure _
  · exact .pure _
  · exact .pure none
  · exact .bind (steady_stepAlong? m _ _) fun _ => .pure _
  · exact .bind (steady_relatedEnd? m _ _ _) fun _ => .pure _

end ModelLabels
