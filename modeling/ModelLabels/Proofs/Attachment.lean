import ModelLabels.Proofs.DiagramCoherence
import ModelLabels.Proofs.Refusal
/-! # Attaching and detaching

Connections can be detached and attached at any time.  A run of such operations changes nothing but
which of those connections are attached, and the links that join them to their ends.

* `Model.SameButAttachment`: two states that differ in no more than that.
* `SameButAttachment.read_get?`: what is read off an object without looking at its attachment.
* `SameButAttachment.attached_eq`: the connections at a component that is the end of none of them.
* `Consistent.apply_attaching`, `Reachable.applyAll_attaching`: one operation, and a run of them.
-/

namespace ModelLabels
set_option autoImplicit false

/-- Whether a link joins one of some connections to an end. -/
def Link.joins (ks : List Key) (l : Link) : Bool :=
  (l.kind = .source || l.kind = .target) && l.tail ∈ ks

/-- The kind of the links that join a connection to an end. -/
def Endpoint.linkKind : Endpoint → LinkKind
  | source => .source
  | target => .target

theorem Endpoint.linkKind_ne_contains (e : Endpoint) : e.linkKind ≠ .contains := by
  cases e <;> decide

namespace Model
variable {m n p : Model} {k x : Key} {ks : List Key}

/-- Two states that differ in which of some connections are attached, in the links that join those to
their ends, and in the serial number given out last. -/
structure SameButAttachment (ks : List Key) (m n : Model) : Prop where
  rest : { n with objects := m.objects, links := m.links, lastSerial := m.lastSerial } = m
  keys : n.objects.keys = m.objects.keys
  slots : n.objects.freed = m.objects.freed ∧ n.objects.fresh = m.objects.fresh
  objects : ∀ k, n.get? k = m.get? k ∨ k ∈ ks ∧ ∃ id owner c isConnected,
    m.get? k = some ⟨id, owner, .connection c⟩ ∧
    n.get? k = some ⟨id, owner, .connection { c with isConnected }⟩
  links : n.links.filter (!·.joins ks) = m.links.filter (!·.joins ks)

namespace SameButAttachment

theorem refl (ks : List Key) (m : Model) : m.SameButAttachment ks m :=
  ⟨rfl, rfl, ⟨rfl, rfl⟩, fun _ => .inl rfl, rfl⟩

theorem trans (h : m.SameButAttachment ks n) (h' : n.SameButAttachment ks p) :
    m.SameButAttachment ks p where
  rest := (congrArg (fun q : Model =>
    { q with objects := m.objects, links := m.links, lastSerial := m.lastSerial }) h'.rest).trans h.rest
  keys := h'.keys.trans h.keys
  slots := ⟨h'.slots.1.trans h.slots.1, h'.slots.2.trans h.slots.2⟩
  objects k := by
    rcases h'.objects k with hsame | ⟨hk, id, owner, c, b, hn, hp⟩
    · rw [hsame]
      exact h.objects k
    · rcases h.objects k with hsame | ⟨-, id', owner', c', b', hm, hn'⟩
      · exact .inr ⟨hk, id, owner, c, b, hsame ▸ hn, hp⟩
      · cases hn.symm.trans hn'
        exact .inr ⟨hk, id, owner, c', b, hm, hp⟩
  links := h'.links.trans h.links

theorem of_update {id : String} {owner : Option Key} {c : Connection} {b : Bool} (hk : k ∈ ks)
    (ho : m.get? k = some ⟨id, owner, .connection c⟩)
    (hobjects : n.objects =
      m.objects.update k fun o => { o with body := o.body.withConnected b })
    (hrest : { n with objects := m.objects, links := m.links, lastSerial := m.lastSerial } = m)
    (hlinks : n.links.filter (!·.joins ks) = m.links.filter (!·.joins ks)) :
    m.SameButAttachment ks n where
  rest := hrest
  keys := by rw [hobjects, Store.keys_update]
  slots := hobjects ▸ ⟨rfl, rfl⟩
  objects l := by
    have hget := get?_of_objects_eq ho hobjects l
    by_cases hl : l = k
    · subst hl
      exact .inr ⟨hk, id, owner, c, b, ho, hget.trans (if_pos rfl)⟩
    · exact .inl (hget.trans (if_neg hl))
  links := hlinks

section Change
variable {id : String} {owner : Option Key} {c : Connection} (hk : k ∈ ks)
  (ho : m.get? k = some ⟨id, owner, .connection c⟩)
include hk ho

theorem detached : m.SameButAttachment ks (m.detached k) := by
  refine .of_update hk ho rfl rfl ?_
  show ((m.links.filter _).filter _).filter _ = _
  rw [List.filter_filter, List.filter_filter]
  -- The links that are dropped join the connection to its ends, and so are left out on both sides.
  refine List.filter_congr fun l _ => ?_
  by_cases hl : l.tail = k
  · cases hkind : l.kind <;> simp [Link.joins, hkind, hl, hk]
  · simp [hl]

theorem reattached : m.SameButAttachment ks (m.reattached k c) := by
  refine .of_update hk ho rfl rfl ?_
  show List.filter _ (m.links ++ [_] ++ [_]) = _
  simp [Link.joins, hk]

end Change

/-! ## What is alike -/

/-- What is read off an object without looking at its attachment is alike. -/
theorem read_get? (h : m.SameButAttachment ks n) {α : Type} {f : Option Object → α}
    (hf : ∀ id owner c isConnected, f (some ⟨id, owner, .connection { c with isConnected }⟩) =
      f (some ⟨id, owner, .connection c⟩)) (k : Key) : f (n.get? k) = f (m.get? k) := by
  rcases h.objects k with hsame | ⟨-, id, owner, c, b, hm, hn⟩
  · rw [hsame]
  · rw [hm, hn]
    exact hf id owner c b

/-- The links that join none of the connections are alike, and in the same order. -/
theorem filter_links (h : m.SameButAttachment ks n) {f : Link → Bool}
    (hf : ∀ l, f l = true → l.joins ks = false) : n.links.filter f = m.links.filter f := by
  have hsplit (ls : List Link) : ls.filter f = (ls.filter (!·.joins ks)).filter f := by
    rw [List.filter_filter]
    refine List.filter_congr fun l _ => ?_
    cases hl : f l with
    | false => rfl
    | true => rw [hf l hl]; rfl
  rw [hsplit n.links, h.links, ← hsplit m.links]

theorem sameStructure (h : m.SameButAttachment ks n) : m.SameStructure n where
  topLevel := (congrArg Model.topLevel h.rest :)
  size := by
    have hlength := congrArg List.length h.keys
    rwa [Store.keys, Store.keys, List.length_map, List.length_map] at hlength
  links := h.filter_links fun l hl => by simp [Link.joins, of_decide_eq_true hl]
  objects := h.read_get? (f := Option.map fun o => (o.id, o.role)) fun _ _ _ _ => rfl

theorem stamp (h : m.SameButAttachment ks n) : n.stamp = m.stamp :=
  (congrArg Model.stamp h.rest :)

end SameButAttachment

/-! ## Connections at a component -/

theorem end?_of_connection? {c : Connection} (h : m.connection? k = some c) (e : Endpoint) :
    m.end? e.linkKind k = if c.isConnected then some (e.pick (c.source, c.target)) else none := by
  obtain ⟨id, owner, ho⟩ := get?_of_connection? h
  rw [end?, ho]
  cases e <;> rfl

/-- The connections at an object are those that are attached and have the object at that end. -/
theorem LinksExact.mem_attached (h : m.LinksExact) (hx : m.contains x = true) (e : Endpoint) :
    k ∈ m.attached e.linkKind x ↔ ∃ c, m.connection? k = some c ∧ c.isConnected = true ∧
      e.pick (c.source, c.target) = x := by
  rw [attached, List.mem_filter, h.mem_incoming_of_ne hx e.linkKind_ne_contains]
  constructor
  · rintro ⟨hend, hcon⟩
    obtain ⟨c, hc⟩ := Option.isSome_iff_exists.1 hcon
    rw [end?_of_connection? hc] at hend
    obtain ⟨hconnected, hx⟩ := Option.ite_none_right_eq_some.1 hend
    exact ⟨c, hc, hconnected, Option.some.inj hx⟩
  · rintro ⟨c, hc, hconnected, hx⟩
    refine ⟨?_, ?_⟩
    · rw [end?_of_connection? hc, if_pos hconnected, hx]
    · rw [isConnection, hc, Option.isSome_some]

theorem contains_of_mem_attached {kind : LinkKind} (h : k ∈ m.attached kind x) :
    m.contains x = true := by
  by_contra hx
  have hin := (List.mem_filter.1 h).1
  rw [incoming, if_neg hx] at hin
  cases hin

namespace SameButAttachment

/-- The connections that are attached to a component are alike, but for those that were attached and
detached. -/
theorem filter_attached (h : m.SameButAttachment ks n) (kind : LinkKind) (x : Key) :
    (n.attached kind x).filter (· ∉ ks) = (m.attached kind x).filter (· ∉ ks) := by
  have hstructure := h.sameStructure
  have hcon : n.isConnection = m.isConnection := funext hstructure.isConnection
  have hsplit (q : Model) : ((q.links.filter fun l => l.kind = kind ∧ l.head = x).map
      (·.tail)).filter (· ∉ ks) =
        (q.links.filter fun l => l.tail ∉ ks ∧ l.kind = kind ∧ l.head = x).map (·.tail) := by
    rw [List.filter_map, List.filter_filter]
    refine congrArg _ (List.filter_congr fun l _ => ?_)
    simp
  have hlinks : n.links.filter (fun l => l.tail ∉ ks ∧ l.kind = kind ∧ l.head = x) =
      m.links.filter fun l => l.tail ∉ ks ∧ l.kind = kind ∧ l.head = x :=
    h.filter_links fun l hl => by simp [Link.joins, (of_decide_eq_true hl).1]
  rw [attached, attached, List.filter_comm, List.filter_comm (l := m.incoming kind x), hcon, incoming,
    incoming, hstructure.contains]
  by_cases hx : m.contains x = true
  · rw [if_pos hx, if_pos hx, hsplit, hsplit, hlinks]
  · rw [if_neg hx, if_neg hx]

/-- A component has the same connections attached by an end if none of those that were attached and
detached has it there. -/
theorem attached_eq (h : m.SameButAttachment ks n) (hm : m.LinksExact) (hn : n.LinksExact)
    (e : Endpoint)
    (hx : ∀ k ∈ ks, ∀ c, m.connection? k = some c → e.pick (c.source, c.target) ≠ x) :
    n.attached e.linkKind x = m.attached e.linkKind x := by
  have hkept (q : Model) (hq : q.LinksExact)
      (hends : ∀ k ∈ ks, ∀ c, q.connection? k = some c → e.pick (c.source, c.target) ≠ x) :
      (q.attached e.linkKind x).filter (· ∉ ks) = q.attached e.linkKind x := by
    refine List.filter_eq_self.2 fun k hk => decide_eq_true fun hmem => ?_
    obtain ⟨c, hc, -, hend⟩ := (hq.mem_attached (contains_of_mem_attached hk) e).1 hk
    exact hends k hmem c hc hend
  rw [← hkept m hm hx, ← h.filter_attached, hkept n hn]
  -- A connection has the same ends in both states.
  intro k hk c hc
  have hends : ((n.get? k).bind (·.body.connection?)).map (fun c => (c.source, c.target)) =
      ((m.get? k).bind (·.body.connection?)).map fun c => (c.source, c.target) :=
    h.read_get? (f := fun o? => (o?.bind (·.body.connection?)).map fun c => (c.source, c.target))
      (fun _ _ _ _ => rfl) k
  rw [← connection?, hc, Option.map_some, eq_comm, Option.map_eq_some_iff] at hends
  obtain ⟨d, hd, he⟩ := hends
  rw [← he]
  exact hx k hk d hd

end SameButAttachment

/-! ## Operations -/

theorem apply_disconnect {id : String} {owner : Option Key} {c : Connection}
    (ho : m.get? k = some ⟨id, owner, .connection c⟩) :
    m.apply (.disconnect k) = (.ok .done, if c.isConnected then m.detached k else m) := by
  have hc : m.requireConnection k = .ok (⟨id, owner, .connection c⟩, c) :=
    requirePart_eq_ok.2 ⟨ho, rfl⟩
  rw [Model.apply, Operation.run, Edit.map_apply, Edit.disconnect_apply, hc]
  rfl

/-- A connection can be attached again, since its ends are still drawn on its view. -/
theorem Consistent.apply_reconnect (h : m.Consistent) {id : String} {owner : Option Key}
    {c : Connection} (ho : m.get? k = some ⟨id, owner, .connection c⟩) :
    m.apply (.reconnect k) = (.ok .done, if c.isConnected then m else m.reattached k c) := by
  have hc : m.requireConnection k = .ok (⟨id, owner, .connection c⟩, c) :=
    requirePart_eq_ok.2 ⟨ho, rfl⟩
  obtain ⟨v, -, -, -, -, hends⟩ :=
    h.diagramsCoherent.connections k c (by rw [connection?, ho]; rfl)
  have hend {x : Key} (hx : x ∈ [c.source, c.target]) :
      ∃ o, m.requireComponent x = .ok (o, v) := by
    obtain ⟨o, hget, hv⟩ := Option.bind_eq_some_iff.1 (hends x hx).2
    exact ⟨o, requirePart_eq_ok.2 ⟨hget, hv⟩⟩
  obtain ⟨source, hsource⟩ := hend (x := c.source) (by simp)
  obtain ⟨target, htarget⟩ := hend (x := c.target) (by simp)
  rw [Model.apply, Operation.run, Edit.map_apply, Edit.reconnect_apply, hc]
  cases hcon : c.isConnected <;>
    simp [hcon, hsource, htarget, Edit.commit, bind, Except.bind, pure, Except.pure]

theorem Consistent.connection?_apply (h : m.Consistent) {c : Connection}
    (hc : m.connection? k = some c) :
    (m.apply (.disconnect k)).2.connection? k = some { c with isConnected := false } ∧
      (m.apply (.reconnect k)).2.connection? k = some { c with isConnected := true } := by
  obtain ⟨id, owner, ho⟩ := get?_of_connection? hc
  rw [apply_disconnect ho, h.apply_reconnect ho]
  have hupdated (q : Model) (hq : q.get? k = some ⟨id, owner, .connection c⟩) (b : Bool) :
      (q.update k fun o => { o with body := o.body.withConnected b }).connection? k =
        some { c with isConnected := b } := by
    rw [connection?, get?_update_of_get? hq, if_pos rfl]
    rfl
  cases hcon : c.isConnected with
  | true => exact ⟨hupdated _ ho false, by rw [if_pos rfl, hc, ← hcon]⟩
  | false => exact ⟨by rw [if_neg (by simp), hc, ← hcon], hupdated _ ho true⟩

theorem Consistent.apply_attaching (h : m.Consistent) {op : Operation} (hk : k ∈ ks)
    (hcon : m.isConnection k = true) (hop : op = .disconnect k ∨ op = .reconnect k) :
    (m.apply op).1 = .ok .done ∧ m.SameButAttachment ks (m.apply op).2 := by
  obtain ⟨c, hc⟩ := Option.isSome_iff_exists.1 hcon
  obtain ⟨id, owner, ho⟩ := get?_of_connection? hc
  rcases hop with rfl | rfl
  · rw [apply_disconnect ho]
    refine ⟨rfl, ?_⟩
    dsimp only
    split
    · exact .detached hk ho
    · exact .refl ks m
  · rw [h.apply_reconnect ho]
    refine ⟨rfl, ?_⟩
    dsimp only
    split
    · exact .refl ks m
    · exact .reattached hk ho

theorem Reachable.applyAll_attaching (h : m.Reachable) {ops : List Operation}
    (hks : ∀ k ∈ ks, m.isConnection k = true)
    (hops : ∀ op ∈ ops, ∃ k ∈ ks, op = .disconnect k ∨ op = .reconnect k) :
    (m.applyAll ops).1 = ops.map (fun _ => .ok .done) ∧ (m.applyAll ops).2.Reachable ∧
      m.SameButAttachment ks (m.applyAll ops).2 := by
  induction ops generalizing m with
  | nil => exact ⟨rfl, h, .refl ks m⟩
  | cons op ops ih =>
    obtain ⟨⟨k, hk, hop⟩, hrest⟩ := List.forall_mem_cons.1 hops
    obtain ⟨hdone, hsame⟩ := h.sound.apply_attaching hk (hks k hk) hop
    -- What was a connection still is one, so the rest of the run is accepted too.
    have hstill : ∀ k ∈ ks, (m.apply op).2.isConnection k = true := fun k hk =>
      (hsame.sameStructure.isConnection k).trans (hks k hk)
    obtain ⟨hanswers, hreachable, hrun⟩ := ih (.step h (.apply op)) hstill hrest
    refine ⟨?_, hreachable, hsame.trans hrun⟩
    show (m.apply op).1 :: ((m.apply op).2.applyAll ops).1 = _
    rw [hdone, hanswers, List.map_cons]

end Model

end ModelLabels
