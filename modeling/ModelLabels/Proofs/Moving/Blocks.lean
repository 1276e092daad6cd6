import ModelLabels.Proofs.Containment
/-! # Blocks of a walk

What lies below an object is listed by a walk in one piece, right after the object.  Leaving it out is
the same as walking over a model in which no link leads to the object.

* `Visits.congr`, `Visits.eq`: models with the same links below what is walked are walked in the same
  way.
* `Visits.exists_block`: what lies below an object is listed in one piece.
* `Visits.pruned`: what is left of a walk without the piece.
* `Sound.mem_walkFrom`: what is met on the walk from an object.
-/

namespace ModelLabels.Model
set_option autoImplicit false

variable {m n : Model} {k x : Key} {ks ls xs ys block : List Key}

namespace Visits

theorem unique (h : m.Visits ks xs) (h' : m.Visits ks ys) : ys = xs := by
  induction h generalizing ys with
  | nil =>
    cases h'
    rfl
  | cons _ _ ihbelow ihafter =>
    cases h' with
    | cons hbelow' hafter' => rw [ihbelow hbelow', ihafter hafter']

/-- A walk depends on the order of the links from the objects it lists, and on nothing else. -/
theorem congr (h : m.Visits ks xs) (hcon : n.isConnection = m.isConnection)
    (hout : ∀ x ∈ xs, n.outgoing .contains x = m.outgoing .contains x) : n.Visits ks xs := by
  induction h with
  | nil => exact .nil
  | @cons k ks below after _ _ ihbelow ihafter =>
    have hk : n.outgoing .contains k = m.outgoing .contains k := hout k (by simp)
    have hchildren : n.children k = m.children k := by rw [children, children, hk, hcon]
    have hbelow := ihbelow fun x hx => hout x (by simp [hx])
    rw [← hchildren] at hbelow
    have hall := hbelow.cons (ihafter fun x hx => hout x (by simp [hx]))
    rwa [hk, hcon] at hall

theorem eq (h : m.Visits ks xs) (h' : n.Visits ks ys) (hcon : n.isConnection = m.isConnection)
    (hout : ∀ x ∈ xs, n.outgoing .contains x = m.outgoing .contains x) : ys = xs :=
  (h.congr hcon hout).unique h'

theorem append (h : m.Visits ks xs) (h' : m.Visits ls ys) : m.Visits (ks ++ ls) (xs ++ ys) := by
  induction h with
  | nil => exact h'
  | cons hbelow _ _ ihafter =>
    rw [List.append_assoc]
    exact .cons hbelow ihafter

/-- What lies below an object that a walk meets is listed in one piece. -/
theorem exists_block (hv : m.Visits ks xs) (hblock : m.Visits [k] block)
    (hcon : m.isConnection k = false) (hk : k ∈ xs) : ∃ before after, xs = before ++ block ++ after := by
  induction hv with
  | nil => cases hk
  | @cons l ks below after hbelow hafter ihbelow ihafter =>
    by_cases hlk : k = l
    · subst hlk
      have hself : m.Visits [k] _ := .cons hbelow .nil
      rw [hself.unique hblock]
      exact ⟨[], after, by simp⟩
    rcases List.mem_append.1 hk with hk | hk
    · rcases List.mem_append.1 ((List.mem_cons.1 hk).resolve_left hlk) with hk | hk
      · obtain ⟨b, a, rfl⟩ := ihbelow hk
        exact ⟨l :: b, a ++ (m.outgoing .contains l).filter m.isConnection ++ after, by simp⟩
      · rw [(List.mem_filter.1 hk).2] at hcon
        cases hcon
    · obtain ⟨b, a, rfl⟩ := ihafter hk
      exact ⟨l :: (below ++ (m.outgoing .contains l).filter m.isConnection) ++ b, a, by simp⟩

end Visits

theorem outgoing_unlinkTo (m : Model) (k x : Key) :
    (m.unlinkTo .contains k).outgoing .contains x = (m.outgoing .contains x).filter (· ≠ k) := by
  have hlive : (m.unlinkTo .contains k).contains x = m.contains x := rfl
  rw [outgoing, outgoing, hlive]
  split
  · rw [List.filter_map]
    show ((m.links.filter _).filter _).map _ = _
    rw [List.filter_filter, List.filter_filter]
    refine congrArg _ (List.filter_congr fun l _ => ?_)
    by_cases hkind : l.kind = .contains <;> by_cases hhead : l.head = k <;> simp [hkind, hhead]
  · rfl

theorem children_unlinkTo (m : Model) (k x : Key) :
    (m.unlinkTo .contains k).children x = (m.children x).filter (· ≠ k) := by
  rw [children, outgoing_unlinkTo, List.filter_comm]
  rfl

/-- What is left of a walk without what lies below an object is a walk over the model in which no owner
is linked to the object. -/
theorem Visits.pruned (h : m.Consistent) (hv : m.Visits ks xs) (hcon : m.isConnection k = false)
    (hlive : ∀ l ∈ ks, m.contains l = true) (hks : ∀ l ∈ ks, l = k ∨ ¬ m.Within l k)
    (hblock : ∀ x, x ∈ block ↔ m.Within x k) :
    (m.unlinkTo .contains k).Visits (ks.filter (· ≠ k)) (xs.filter (· ∉ block)) := by
  induction hv with
  | nil => exact .nil
  | @cons l ks below after hbelow hafter ihbelow ihafter =>
    have hl : m.contains l = true := hlive l List.mem_cons_self
    have hrest := ihafter (fun x hx => hlive x (List.mem_cons_of_mem _ hx)) fun x hx =>
      hks x (List.mem_cons_of_mem _ hx)
    rw [List.filter_append]
    by_cases hlk : l = k
    · -- The object itself: all that is listed from here lies below it.
      subst hlk
      have hself : m.Visits [l] _ := .cons hbelow .nil
      have hgone : (l :: (below ++ (m.outgoing .contains l).filter m.isConnection)).filter
          (· ∉ block) = [] := by
        refine List.filter_eq_nil_iff.2 fun x hx => ?_
        have hw := (hself.mem_iff h (by simpa using hl)).1 (by simpa using hx)
        simpa [hblock] using hw
      rw [hgone, List.filter_cons_of_neg (by simp)]
      exact hrest
    · have hnot : ¬ m.Within l k := (hks l List.mem_cons_self).resolve_left hlk
      -- What the other object owns is the object itself or does not lie below it, either.
      have howned : ∀ c, m.owner? c = some l → c = k ∨ ¬ m.Within c k := fun c hown =>
        or_iff_not_imp_left.2 fun hc => mt (within_iff_of_owner? hc hown).1 hnot
      have hchildren := ihbelow (fun c hc => contains_of_owner? ((h.links.mem_children hl).1 hc).1)
        fun c hc => howned c ((h.links.mem_children hl).1 hc).1
      rw [← children_unlinkTo] at hchildren
      have hlines : ∀ c ∈ (m.outgoing .contains l).filter m.isConnection, c ≠ k ∧ c ∉ block := by
        intro c hc
        obtain ⟨hout, hline⟩ := List.mem_filter.1 hc
        have hne : c ≠ k := by
          rintro rfl
          simp [hline] at hcon
        have hown := (h.links.mem_outgoing_contains hl).1 hout
        exact ⟨hne, fun hmem => (howned c hown).resolve_left hne ((hblock c).1 hmem)⟩
      have hkept : ((m.outgoing .contains l).filter m.isConnection).filter (· ∉ block) =
          ((m.unlinkTo .contains k).outgoing .contains l).filter
            (m.unlinkTo .contains k).isConnection := by
        rw [outgoing_unlinkTo, List.filter_comm _ (· ≠ k)]
        refine (List.filter_eq_self.2 fun c hc => ?_).trans (List.filter_eq_self.2 fun c hc => ?_).symm
        · exact decide_eq_true (hlines c hc).2
        · exact decide_eq_true (hlines c hc).1
      have hlblock : l ∉ block := fun hmem => hnot ((hblock l).1 hmem)
      rw [List.filter_cons_of_pos (by simpa using hlk),
        List.filter_cons_of_pos (by simpa using hlblock), List.filter_append, hkept]
      exact .cons hchildren hrest

theorem filter_append_block {before after : List Key} (hnodup : (before ++ block ++ after).Nodup) :
    (before ++ block ++ after).filter (· ∉ block) = before ++ after := by
  obtain ⟨hfirst, -, hafter⟩ := List.nodup_append'.1 hnodup
  obtain ⟨-, -, hbefore⟩ := List.nodup_append'.1 hfirst
  have hkept : ∀ {ys : List Key}, (∀ x ∈ ys, x ∉ block) → ys.filter (· ∉ block) = ys := fun h =>
    List.filter_eq_self.2 fun x hx => decide_eq_true (h x hx)
  have hnone : block.filter (· ∉ block) = [] :=
    List.filter_eq_nil_iff.2 fun x hx => by simpa using hx
  rw [List.filter_append, List.filter_append, hnone, List.append_nil, hkept fun _ hx => hbefore hx,
    hkept fun x hx hmem => hafter (List.mem_append_right _ hmem) hx]

/-! ## The walk from one object -/

theorem Sound.visits_from (h : m.Sound) (hk : m.contains k = true) :
    m.Visits [k] (m.walkFrom m.size k) := by
  obtain ⟨d, hd⟩ := h.rooted k hk
  have hvisits : m.Visits [k] ([k].flatMap (m.walkFrom m.size)) :=
    visits_walkFrom h.links (by simpa using ⟨d, hd⟩)
  simpa using hvisits

theorem Sound.mem_walkFrom (h : m.Sound) (hk : m.contains k = true) :
    x ∈ m.walkFrom m.size k ↔ m.Within x k := by
  rw [(h.visits_from hk).mem_iff h.toConsistent (by simpa using hk)]
  simp

end ModelLabels.Model
