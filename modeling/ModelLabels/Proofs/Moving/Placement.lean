import ModelLabels.Proofs.Moving.Admission
import ModelLabels.Proofs.Moving.Blocks
import ModelLabels.Proofs.References
/-! # What a move does

A moved object comes last of what its new owner holds, also when that was its owner before, and takes
all below it along.  Nothing else changes its place, so a walk lists the object with what lies below it
somewhere else and is the same otherwise.

* `outgoing_moved`, `incoming_moved`: neighbours after a move.
* `Model.WalkMoved`, `Model.MovedTo`: what a move does.
* `Reachable.move_exact`: the property.
-/

namespace ModelLabels.Model
set_option autoImplicit false

variable {m n : Model} {k p x : Key} {o : Object}

/-- Two walks list the same objects in one piece, in the same order, and all others in the same
order. -/
def WalkMoved (block walk walk' : List Key) : Prop :=
  ∃ before after before' after', walk = before ++ block ++ after ∧
    walk' = before' ++ block ++ after' ∧ before' ++ after' = before ++ after

/-- A move of an object to an owner: what changes, and that nothing else does. -/
structure MovedTo (m : Model) (k p : Key) (n : Model) : Prop where
  moved : ∀ o, m.get? k = some o → n.get? k = some { o with owner := some p }
  others : ∀ x, x ≠ k → n.get? x = m.get? x
  keys : n.objects.keys = m.objects.keys
  rest : { n with
    objects := m.objects, links := m.links, lastSerial := m.lastSerial, version := m.version } = m
  left : ∀ q, m.owner? k = some q → q ≠ p → n.children q = (m.children q).filter (· ≠ k)
  entered : n.children p = (m.children p).filter (· ≠ k) ++ [k]
  children_others : ∀ x, x ≠ p → m.owner? k ≠ some x → n.children x = m.children x
  viewConnections : ∀ x, n.viewConnections x = m.viewConnections x
  attached : ∀ x, n.sourceConnections x = m.sourceConnections x ∧
    n.targetConnections x = m.targetConnections x
  block : n.walkFrom n.size k = m.walkFrom m.size k
  mem_block : ∀ x, x ∈ m.walkFrom m.size k ↔ m.Within x k
  walk : WalkMoved (m.walkFrom m.size k) m.walk n.walk

/-! ## Objects and neighbours -/

section Moved
variable (ho : m.get? k = some o)
include ho

theorem get?_moved (p x : Key) :
    (m.moved k p).get? x = if x = k then some { o with owner := some p } else m.get? x :=
  get?_update_of_get? ho _ x

/-- What is read off an object without looking at its owner is as before. -/
theorem read_get?_moved {α : Type} {f : Option Object → α}
    (hf : ∀ o owner, f (some { o with owner }) = f (some o)) (p x : Key) :
    f ((m.moved k p).get? x) = f (m.get? x) := by
  rw [get?_moved ho]
  split
  · next hx => rw [hx, ho, hf]
  · rfl

theorem contains_moved (p x : Key) : (m.moved k p).contains x = m.contains x :=
  read_get?_moved ho (f := Option.isSome) (fun _ _ => rfl) p x

theorem isConnection_moved (p : Key) : (m.moved k p).isConnection = m.isConnection :=
  funext fun x =>
    read_get?_moved ho (f := fun o? => (o?.bind (·.body.connection?)).isSome) (fun _ _ => rfl) p x

theorem view?_moved (p x : Key) : (m.moved k p).view? x = m.view? x :=
  read_get?_moved ho (f := (·.bind (·.body.view?))) (fun _ _ => rfl) p x

theorem outgoing_moved (hp : m.contains p = true) (x : Key) :
    (m.moved k p).outgoing .contains x =
      (m.outgoing .contains x).filter (· ≠ k) ++ if x = p then [k] else [] := by
  have hlinks : (m.moved k p).links = (m.unlinkTo .contains k).links ++ [⟨.contains, p, k⟩] := rfl
  have hlive : (m.unlinkTo .contains k).contains x = m.contains x := rfl
  rw [← outgoing_unlinkTo, outgoing, outgoing, contains_moved ho, hlive, hlinks]
  by_cases hx : m.contains x = true
  · rw [if_pos hx, if_pos hx, List.filter_append, List.map_append]
    by_cases hxp : x = p <;> simp [hxp, eq_comm]
  · have hxp : x ≠ p := fun hxp => hx (hxp ▸ hp)
    rw [if_neg hx, if_neg hx, if_neg hxp]
    rfl

theorem incoming_moved {kind : LinkKind} (hkind : kind ≠ .contains) (p x : Key) :
    (m.moved k p).incoming kind x = m.incoming kind x := by
  have hlinks : (m.moved k p).links = (m.unlinkTo .contains k).links ++ [⟨.contains, p, k⟩] := rfl
  have hkept : (m.unlinkTo .contains k).links.filter (fun l => l.kind = kind ∧ l.head = x) =
      m.links.filter fun l => l.kind = kind ∧ l.head = x := by
    show (m.links.filter _).filter _ = _
    rw [List.filter_filter]
    refine List.filter_congr fun l _ => ?_
    by_cases hl : l.kind = kind <;> simp [hl, hkind]
  rw [incoming, incoming, contains_moved ho, hlinks, List.filter_append, hkept]
  simp [Ne.symm hkind]

theorem children_moved (hp : m.contains p = true) (hc : m.isConnection k = false) (x : Key) :
    (m.moved k p).children x =
      (m.children x).filter (· ≠ k) ++ if x = p then [k] else [] := by
  rw [children, outgoing_moved ho hp, isConnection_moved ho, List.filter_append, List.filter_comm]
  by_cases hxp : x = p <;> simp [hxp, hc, children]

theorem viewConnections_moved (hp : m.contains p = true) (hc : m.isConnection k = false) (x : Key) :
    (m.moved k p).viewConnections x = m.viewConnections x := by
  have hkept : ((m.outgoing .contains x).filter m.isConnection).filter (· ≠ k) =
      (m.outgoing .contains x).filter m.isConnection := by
    refine List.filter_eq_self.2 fun y hy => decide_eq_true ?_
    rintro rfl
    simp [hc] at hy
  rw [viewConnections, viewConnections, view?_moved ho, isConnection_moved ho,
    outgoing_moved ho hp, List.filter_append, List.filter_comm, hkept]
  by_cases hxp : x = p <;> simp [hxp, hc]

theorem attached_moved {kind : LinkKind} (hkind : kind ≠ .contains) (p x : Key) :
    (m.moved k p).attached kind x = m.attached kind x := by
  rw [attached, attached, incoming_moved ho hkind, isConnection_moved ho]

end Moved

/-! ## The walk -/

section Walk
variable (hm : m.Sound) (hn : (m.moved k p).Sound) (ho : m.get? k = some o)
  (hc : m.isConnection k = false) (hp : m.contains p = true) (hnot : ¬ m.Within p k)
include hm hn ho hc hp hnot

/-- What lies below the object is linked as before. -/
theorem walkFrom_moved :
    (m.moved k p).walkFrom (m.moved k p).size k = m.walkFrom m.size k := by
  have hk : m.contains k = true := contains_of_get? ho
  refine (hm.visits_from hk).eq (hn.visits_from ((contains_moved ho p k).trans hk))
    (isConnection_moved ho p) fun x hx => ?_
  have hw : m.Within x k := (hm.mem_walkFrom hk).1 hx
  have hxp : x ≠ p := fun hxp => hnot (hxp ▸ hw)
  have hself : k ∉ m.outgoing .contains x := by
    intro hmem
    have hown := (hm.links.mem_outgoing_contains (contains_of_mem_outgoing hmem)).1 hmem
    obtain ⟨d, hd⟩ := hm.rooted x (contains_of_mem_outgoing hmem)
    obtain ⟨e, he, hle⟩ := hd.of_within hw
    have := he.unique (.owned hown hd)
    omega
  rw [outgoing_moved ho hp, if_neg hxp, List.append_nil]
  refine List.filter_eq_self.2 fun y hy => decide_eq_true ?_
  rintro rfl
  exact hself hy

/-- Without the object and what lies below it, both walks are over the same links. -/
theorem filter_walk_moved :
    (m.moved k p).walk.filter (· ∉ m.walkFrom m.size k) =
      m.walk.filter (· ∉ m.walkFrom m.size k) := by
  have hk : m.contains k = true := contains_of_get? ho
  have hroots {q : Model} (h : q.Sound) : ∀ t ∈ q.topLevelKeys, t = k ∨ ¬ q.Within t k :=
    fun t ht => or_iff_not_imp_left.2 fun htk =>
      not_within_of_owner?_none htk ((h.top.mem_iff t).1 ht).2
  have hlive {q : Model} (h : q.Sound) : ∀ t ∈ q.topLevelKeys, q.contains t = true :=
    fun t ht => ((h.top.mem_iff t).1 ht).1
  have hc' : (m.moved k p).isConnection k = false := by rw [isConnection_moved ho, hc]
  have hblock' : ∀ x, x ∈ m.walkFrom m.size k ↔ (m.moved k p).Within x k := by
    intro x
    rw [← walkFrom_moved hm hn ho hc hp hnot]
    exact hn.mem_walkFrom ((contains_moved ho p k).trans hk)
  have hbefore := hm.walkExact.ends.pruned hm.toConsistent hc (hlive hm) (hroots hm)
    fun x => hm.mem_walkFrom hk
  have hafter := hn.walkExact.ends.pruned hn.toConsistent hc' (hlive hn) (hroots hn) hblock'
  refine hbefore.eq hafter (isConnection_moved ho p) fun x _ => ?_
  rw [outgoing_unlinkTo, outgoing_unlinkTo, outgoing_moved ho hp, List.filter_append,
    List.filter_filter]
  by_cases hxp : x = p <;> simp [hxp]

theorem walkMoved : WalkMoved (m.walkFrom m.size k) m.walk (m.moved k p).walk := by
  have hk : m.contains k = true := contains_of_get? ho
  have hk' : (m.moved k p).contains k = true := (contains_moved ho p k).trans hk
  have hc' : (m.moved k p).isConnection k = false := by rw [isConnection_moved ho, hc]
  have hblock' := hn.visits_from hk'
  rw [walkFrom_moved hm hn ho hc hp hnot] at hblock'
  obtain ⟨before, after, hwalk⟩ :=
    hm.walkExact.ends.exists_block (hm.visits_from hk) hc ((hm.walkExact.mem_iff k).2 hk)
  obtain ⟨before', after', hwalk'⟩ :=
    hn.walkExact.ends.exists_block hblock' hc' ((hn.walkExact.mem_iff k).2 hk')
  refine ⟨before, after, before', after', hwalk, hwalk', ?_⟩
  have hnodup := hm.walkExact.nodup
  have hnodup' := hn.walkExact.nodup
  have hfilter := filter_walk_moved hm hn ho hc hp hnot
  rw [hwalk] at hnodup hfilter
  rw [hwalk'] at hnodup' hfilter
  rwa [filter_append_block hnodup, filter_append_block hnodup'] at hfilter

end Walk

/-! ## The property -/

theorem Sound.movedTo (h : m.Sound) (hn : (m.moved k p).Sound) (hmove : m.AdmitsMove k p) :
    m.MovedTo k p (m.moved k p) := by
  obtain ⟨o, ho, -, hrole, hp, hnot⟩ := hmove
  have hc : m.isConnection k = false := by
    rw [isConnection, connection?_of_get? ho, ← Object.isConnection_role]
    exact hrole
  have hlive : m.contains p = true := by
    obtain ⟨q, hq, -⟩ := hp.owner_role h.drawn
    exact contains_of_role? hq
  have hk : m.contains k = true := contains_of_get? ho
  have hchildren := children_moved ho hlive hc
  refine ⟨fun o' ho' => ?_, fun x hx => (get?_moved ho p x).trans (if_neg hx),
    Store.keys_update _ _ _, rfl, fun q _ hqp => ?_, ?_, fun x hxp hown => ?_,
    viewConnections_moved ho hlive hc,
    fun x => ⟨attached_moved ho (by decide) p x, attached_moved ho (by decide) p x⟩,
    walkFrom_moved h hn ho hc hlive hnot, fun x => h.mem_walkFrom hk,
    walkMoved h hn ho hc hlive hnot⟩
  · obtain rfl := Option.some.inj (ho.symm.trans ho')
    exact (get?_moved ho p k).trans (if_pos rfl)
  · rw [hchildren, if_neg hqp, List.append_nil]
  · rw [hchildren, if_pos rfl]
  · rw [hchildren, if_neg hxp, List.append_nil]
    refine List.filter_eq_self.2 fun y hy => decide_eq_true ?_
    rintro rfl
    have hout := (List.mem_filter.1 hy).1
    exact hown ((h.links.mem_outgoing_contains (contains_of_mem_outgoing hout)).1 hout)

/-- In every reachable model an object moves just where it is admitted, it comes last there with all
below it, and nothing else changes its place. -/
theorem Reachable.move_exact (h : m.Reachable) (k p : Key) :
    ((m.apply (.moveTo k p)).1 = .ok .done ↔ m.AdmitsMove k p) ∧
    ((m.apply (.moveTo k p)).1 = .ok .done → m.MovedTo k p (m.apply (.moveTo k p)).2) := by
  have hsound : (m.apply (.moveTo k p)).2.Sound := (h.step (.apply _)).sound
  have hcheck := h.sound.toConsistent.checkMove_eq_ok_iff (k := k) (p := p)
  rw [apply_moveTo] at hsound ⊢
  cases hresult : m.checkMove k p with
  | ok u =>
    have hmove : m.AdmitsMove k p := hcheck.1 hresult
    rw [hresult] at hsound
    exact ⟨⟨fun _ => hmove, fun _ => rfl⟩, fun _ => h.sound.movedTo hsound hmove⟩
  | error e =>
    have hmove : ¬ m.AdmitsMove k p := fun hmove => by
      rw [hcheck.2 hmove] at hresult
      cases hresult
    have hrefused : ¬ Except.error e = Except.ok Operation.Answer.done := nofun
    exact ⟨iff_of_false hrefused hmove, fun hdone => absurd hdone hrefused⟩

/-- A group that moves to the view it is on comes last there, with the note that it holds. -/
theorem move_exact_same_owner :
    let view := (new 1 "Plan").nextKey
    let m₁ := ((new 1 "Plan").apply (.addView "Map")).2
    let first := m₁.nextKey
    let m₂ := (m₁.apply (.addGroup view "Front")).2
    let second := m₂.nextKey
    let m₃ := (m₂.apply (.addGroup view "Back")).2
    let note := m₃.nextKey
    let m := (m₃.apply (.addNote first "here")).2
    let n := (m.apply (.moveTo first view)).2
    m.Reachable ∧ m.children view = [first, second] ∧ n.children view = [second, first] ∧
      m.walkFrom m.size first = [first, note] ∧ m.AdmitsMove first view ∧ m.MovedTo first view n := by
  intro view m₁ first m₂ second m₃ note m n
  have hm : m.Reachable :=
    .step (.step (.step (.step (.new 1 "Plan") (.apply _)) (.apply _)) (.apply _)) (.apply _)
  have hdone : (m.apply (.moveTo first view)).1 = .ok .done := by decide
  obtain ⟨hadmits, hmoved⟩ := hm.move_exact first view
  exact ⟨hm, by decide, by decide, by decide, hadmits.1 hdone, hmoved hdone⟩

end ModelLabels.Model
