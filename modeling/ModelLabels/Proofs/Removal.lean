import ModelLabels.Proofs.Integrity.Preservation
/-! # Removal takes what depends and nothing else

In a reachable model every object but a top-level folder can be removed.  What goes is the least set of
objects that holds it and all that depends on what goes; all else stays as it was.

* `Model.RemovedFrom`: a model without some of the objects of another one.
* `outgoing_cleared`, `incoming_cleared`: the neighbours that stay.
* `Reachable.remove_doomed`: removal, in whatever order the objects go.
-/

namespace ModelLabels.Model
set_option autoImplicit false

variable {m n : Model} {k x : Key} {ks : List Key}

/-- Some objects of a model are gone from it, and nothing else is different but for what concerned
them. -/
structure RemovedFrom (m : Model) (ks : List Key) (n : Model) : Prop where
  gone : ∀ x ∈ ks, m.contains x = true ∧ n.contains x = false
  kept : ∀ x ∉ ks, n.get? x = m.get? x
  children : ∀ x ∉ ks, n.children x = (m.children x).filter (· ∉ ks)
  viewConnections : ∀ x ∉ ks, n.viewConnections x = (m.viewConnections x).filter (· ∉ ks)
  sourceConnections : ∀ x ∉ ks, n.sourceConnections x = (m.sourceConnections x).filter (· ∉ ks)
  targetConnections : ∀ x ∉ ks, n.targetConnections x = (m.targetConnections x).filter (· ∉ ks)
  freed : ∀ id, (id ∈ m.usedIds ∧ id ∉ n.usedIds) ↔ ∃ x ∈ ks, m.idOf? x = some id
  used : ∀ id ∈ n.usedIds, id ∈ m.usedIds
  topLevel : n.topLevel = m.topLevel ∧ ∀ t ∈ m.topLevelKeys, n.contains t = true

/-! ## Neighbours that stay -/

theorem get?_cleared_of_not_mem (m : Model) (hx : x ∉ ks) : (m.cleared ks).get? x = m.get? x :=
  (m.get?_cleared ks x).trans (if_neg hx)

theorem isConnection_cleared (m : Model) (hx : x ∉ ks) :
    (m.cleared ks).isConnection x = m.isConnection x := by
  rw [isConnection, connection?, m.get?_cleared_of_not_mem hx, isConnection, connection?]

theorem filter_links_cleared (ls : List Link) {near far : Link → Key}
    (hends : ∀ l : Link, (l.tail ∉ ks ∧ l.head ∉ ks) ↔ (near l ∉ ks ∧ far l ∉ ks)) (hx : x ∉ ks)
    (kind : LinkKind) :
    ((ls.filter fun l => l.tail ∉ ks ∧ l.head ∉ ks).filter fun l => l.kind = kind ∧ near l = x).map
      far = ((ls.filter fun l => l.kind = kind ∧ near l = x).map far).filter (· ∉ ks) := by
  rw [List.filter_map, List.filter_filter, List.filter_filter]
  refine congrArg (List.map far) (List.filter_congr fun l _ => ?_)
  rw [Function.comp_apply, ← Bool.decide_and, ← Bool.decide_and, decide_eq_decide, hends]
  constructor
  · rintro ⟨hl, -, hfar⟩
    exact ⟨hfar, hl⟩
  · rintro ⟨hfar, hl⟩
    exact ⟨hl, hl.2 ▸ hx, hfar⟩

theorem filter_filter_not_mem (xs : List Key) {f g : Key → Bool} (h : ∀ y ∉ ks, f y = g y) :
    (xs.filter (· ∉ ks)).filter f = (xs.filter g).filter (· ∉ ks) := by
  rw [List.filter_filter, List.filter_filter]
  refine List.filter_congr fun y _ => ?_
  by_cases hy : y ∈ ks
  · simp [hy]
  · simp [hy, h y hy]

section Neighbours
variable (hlive : ∀ k ∈ ks, m.contains k = true) (hnodup : ks.Nodup)
include hlive hnodup

theorem outgoing_cleared (hx : x ∉ ks) (kind : LinkKind) :
    (m.cleared ks).outgoing kind x = (m.outgoing kind x).filter (· ∉ ks) := by
  rw [outgoing, contains_congr (m.get?_cleared_of_not_mem hx), outgoing,
    links_cleared hlive hnodup]
  by_cases hcon : m.contains x = true
  · rw [if_pos hcon, if_pos hcon]
    exact filter_links_cleared m.links (fun _ => Iff.rfl) hx kind
  · rw [if_neg hcon, if_neg hcon]
    rfl

theorem incoming_cleared (hx : x ∉ ks) (kind : LinkKind) :
    (m.cleared ks).incoming kind x = (m.incoming kind x).filter (· ∉ ks) := by
  rw [incoming, contains_congr (m.get?_cleared_of_not_mem hx), incoming,
    links_cleared hlive hnodup]
  by_cases hcon : m.contains x = true
  · rw [if_pos hcon, if_pos hcon]
    exact filter_links_cleared m.links (fun _ => and_comm) hx kind
  · rw [if_neg hcon, if_neg hcon]
    rfl

theorem children_cleared (hx : x ∉ ks) :
    (m.cleared ks).children x = (m.children x).filter (· ∉ ks) := by
  rw [Model.children, outgoing_cleared hlive hnodup hx, Model.children]
  exact filter_filter_not_mem _ fun y hy => congrArg not (m.isConnection_cleared hy)

theorem viewConnections_cleared (hx : x ∉ ks) :
    (m.cleared ks).viewConnections x = (m.viewConnections x).filter (· ∉ ks) := by
  have hview : (m.cleared ks).view? x = m.view? x := by
    rw [view?, m.get?_cleared_of_not_mem hx, view?]
  rw [Model.viewConnections, hview, outgoing_cleared hlive hnodup hx, Model.viewConnections]
  by_cases hv : (m.view? x).isSome = true
  · rw [if_pos hv, if_pos hv]
    exact filter_filter_not_mem _ fun y hy => m.isConnection_cleared hy
  · rw [if_neg hv, if_neg hv]
    rfl

theorem attached_cleared (hx : x ∉ ks) (kind : LinkKind) :
    (m.cleared ks).attached kind x = (m.attached kind x).filter (· ∉ ks) := by
  rw [Model.attached, incoming_cleared hlive hnodup hx, Model.attached]
  exact filter_filter_not_mem _ fun y hy => m.isConnection_cleared hy

end Neighbours

/-! ## Removal -/

/-- Objects that are there and go, one after the other, leave the rest as it was. -/
theorem Sound.removedFrom_cleared (h : m.Sound) (hlive : ∀ k ∈ ks, m.contains k = true)
    (hnodup : ks.Nodup) (htop : ∀ t ∈ m.topLevelKeys, t ∉ ks) :
    m.RemovedFrom ks (m.cleared ks) := by
  have hgone : ∀ x ∈ ks, (m.cleared ks).contains x = false := fun x hx =>
    congrArg Option.isSome ((m.get?_cleared ks x).trans (if_pos hx))
  refine ⟨fun x hx => ⟨hlive x hx, hgone x hx⟩, fun x hx => m.get?_cleared_of_not_mem hx,
    fun x hx => children_cleared hlive hnodup hx,
    fun x hx => viewConnections_cleared hlive hnodup hx,
    fun x hx => attached_cleared hlive hnodup hx .source,
    fun x hx => attached_cleared hlive hnodup hx .target, fun id => ?_, fun id hid => ?_, ?_⟩
  · rw [mem_usedIds_cleared]
    constructor
    · rintro ⟨hused, hnot⟩
      by_contra hnone
      exact hnot ⟨hused, fun x hx he => hnone ⟨x, hx, he⟩⟩
    · rintro ⟨x, hx, he⟩
      exact ⟨(h.ids.mem_usedIds id).2 (.inr ⟨x, he⟩), fun hstay => hstay.2 x hx he⟩
  · exact (mem_usedIds_cleared.1 hid).1
  · refine ⟨(m.cleared_frame ks).2.2.1, fun t ht => ?_⟩
    rw [contains_congr (m.get?_cleared_of_not_mem (htop t ht))]
    exact ((h.top.mem_iff t).1 ht).1

theorem apply_remove (h : m.Sound) (hk : m.contains k = true) (htop : k ∉ m.topLevelKeys) :
    m.apply (.remove k) = (.ok (.removed (m.doomed k).length), m.cleared (m.doomed k)) := by
  obtain ⟨o, ho⟩ := contains_iff_get?.1 hk
  have hnot : o.isTopLevel = false := by
    rw [← Bool.not_eq_true, h.isTopLevel_iff ho]
    exact htop
  have hrun : Edit.remove k m = .ok (m.doomed k).length (m.cleared (m.doomed k)) := by
    rw [Edit.remove_apply, require_eq_ok.2 ho]
    simp only [bind, Except.bind, hnot, Bool.false_eq_true, if_false]
    rfl
  rw [apply, Operation.run, Edit.map_apply, hrun]

/-- With an object on which nothing depends, only the object itself goes. -/
theorem doomed_eq_singleton (hk : m.contains k = true) (hnone : m.dependents k = []) :
    m.doomed k = [k] := by
  have hlive : m.contains k = true ∧ k ∉ [] := ⟨hk, List.not_mem_nil⟩
  rw [doomed, close, dif_pos hlive, hnone, List.nil_append, close]

/-- Removal takes the least set that holds an object and all that depends on what it holds, and leaves
the rest as it was, in whatever order the objects go. -/
theorem Reachable.remove_doomed (h : m.Reachable) (hk : m.contains k = true)
    (htop : k ∉ m.topLevelKeys) :
    m.apply (.remove k) = (.ok (.removed (m.doomed k).length), m.cleared (m.doomed k)) ∧
    IsLeast {s : Set Key | k ∈ s ∧ m.IsClosed s} {x | x ∈ m.doomed k} ∧
    ∀ ks, ks.Perm (m.doomed k) → m.RemovedFrom ks (m.cleared ks) := by
  have hs := h.sound
  refine ⟨apply_remove hs hk htop, hs.doomed_least hk, fun ks hks => ?_⟩
  refine hs.removedFrom_cleared (fun x hx => contains_of_mem_doomed (hks.mem_iff.1 hx))
    (hks.nodup_iff.2 (m.doomed_nodup k)) fun t ht hmem => ?_
  exact hs.not_mem_doomed htop ht (hks.mem_iff.1 hmem)

/-- With an element goes a relationship from it to itself. -/
theorem remove_doomed_element :
    let m := ((new 1 "Plan").apply (.addElement .businessActor "Buyer")).2
    let a := (new 1 "Plan").nextKey
    let n := (m.apply (.addRelationship .association a a)).2
    n.contains a = true ∧ a ∉ n.topLevelKeys ∧ (n.apply (.remove a)).2.contains m.nextKey = false := by
  intro m a n
  have hn : n.Reachable := .step (.step (.new 1 "Plan") (.apply _)) (.apply _)
  have ha : n.contains a = true := by decide
  have htop : a ∉ n.topLevelKeys := by decide
  obtain ⟨happly, hleast, hremoved⟩ := hn.remove_doomed ha htop
  obtain ⟨c, hc, hends⟩ : ∃ c, n.concept? m.nextKey = some c ∧ c.kind.ends? = some (a, a) :=
    ⟨⟨.named "", .relationship .association a a⟩, by decide, rfl⟩
  have hmem : m.nextKey ∈ n.doomed a := hleast.1.2 _ a hleast.1.1 (.ends hc hends (.inl rfl))
  refine ⟨ha, htop, ?_⟩
  rw [happly]
  exact ((hremoved _ (List.Perm.refl _)).gone _ hmem).2

end ModelLabels.Model
