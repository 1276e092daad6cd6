import ModelLabels.Model.Edit
/-! # Removing objects

An object is removed with all that depends on it: what it owns, the relationships that end at it, the
components of views that show it, and the connections that start or end at it, attached or not.

* `Model.dependents`: what depends on an object directly.
* `Model.doomed`: all that goes with an object.  The search for it ends because every step either
  finds an object that was not found before or takes one from the list of those to look at.
-/

namespace ModelLabels
set_option autoImplicit false

namespace Model

/-- The connections on the view of a component that start or end at it, attached or not. -/
def connectionsAt (m : Model) (k : Key) : List Key :=
  match (m.get? k).bind (·.drawnOn?) with
  | some view =>
    (m.viewConnections view).filter fun c =>
      match m.connection? c with
      | some connection => connection.source = k ∨ connection.target = k
      | none => false
  | none => []

/-- What depends on an object directly. -/
def dependents (m : Model) (k : Key) : List Key :=
  m.outgoing .contains k ++ m.incoming .source k ++ m.incoming .target k ++ m.incoming .shows k
    ++ m.connectionsAt k

/-- The objects that are not among those found. -/
def notFound (m : Model) (found : List Key) : List Key := m.objects.keys.filter (· ∉ found)

theorem length_notFound_lt {m : Model} {k : Key} {found : List Key} (hk : m.contains k = true)
    (hf : k ∉ found) : (m.notFound (k :: found)).length < (m.notFound found).length := by
  have hsub : m.notFound (k :: found) = (m.notFound found).filter (· ≠ k) := by
    simp only [notFound, List.filter_filter]
    apply List.filter_congr
    intro l _
    simp [not_or]
  rw [hsub]
  apply List.length_filter_lt_length_iff_exists.2
  exact ⟨k, List.mem_filter.2 ⟨Store.contains_iff.1 hk, by simpa using hf⟩, by simp⟩

/-- The objects found so far, with those still to look at and all that depends on them. -/
def close (m : Model) (pending found : List Key) : List Key :=
  match pending with
  | [] => found
  | k :: rest =>
    if _h : m.contains k = true ∧ k ∉ found then m.close (m.dependents k ++ rest) (k :: found)
    else m.close rest found
termination_by ((m.notFound found).length, pending.length)
decreasing_by
  · exact Prod.Lex.left _ _ (length_notFound_lt _h.1 _h.2)
  · exact Prod.Lex.right _ (Nat.lt_succ_self _)

/-- All that goes when an object goes, itself included. -/
def doomed (m : Model) (k : Key) : List Key := m.close [k] []

end Model

/-- Whether an object is one of the top-level folders. -/
def Object.isTopLevel (o : Object) : Bool :=
  match o.body with
  | .folder _ => o.owner.isNone
  | _ => false

/-- Remove an object with all that depends on it, and answer how many objects went. -/
def Edit.remove (k : Key) : Edit Nat := do
  let o ← check (·.require k)
  if o.isTopLevel then throw (.topLevelFolder o.id)
  else
    let doomed := (← get).doomed k
    modify fun m => doomed.foldl Model.erase m
    bump
    return doomed.length

end ModelLabels
