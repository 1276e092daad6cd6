import ModelLabels.Proofs.Attachment
import ModelLabels.Proofs.KeyHistory
/-! # Connections at a component

The connections that start or end at a component are read off the links that join them to it.  They are
the connections that are attached and name the component as that end, each once, and those that have
been attached for longer come first.

* `Model.attachedFor`: for how long a connection has been attached.
* `Model.ListsAttached`: what a list of the connections at a component must be.
* `Model.JoinsLast`: at most one link to an end is made, after all others; `Effect.joinsLast`.
* `History.attachments_ordered`: so the order is kept along a history.
* `Model.Reattachable`: what detaching and attaching a connection does to the lists.
* `Reachable.connections_in_order`: the property.
-/

namespace ModelLabels
set_option autoImplicit false

namespace Model
variable {m n : Model} {states past : List Model} {e : Endpoint} {k x : Key} {made : List Link}

/-! ## The lists -/

/-- The connections that are attached to an object by an end. -/
def connectionsBy (m : Model) : Endpoint → Key → List Key
  | .source, x => m.sourceConnections x
  | .target, x => m.targetConnections x

theorem connectionsBy_eq (m : Model) (e : Endpoint) (x : Key) :
    m.connectionsBy e x = m.attached e.linkKind x := by
  cases e <;> rfl

/-- Whether a key is that of a connection that is attached to its ends. -/
def isAttached (m : Model) (k : Key) : Bool := (m.connection? k).any (·.isConnected)

/-- For how many states of a history, the latest first, a connection has been attached by now. -/
def attachedFor (states : List Model) (k : Key) : Nat := (states.takeWhile (·.isAttached k)).length

/-- A list holds the connections of the latest state of a history that are attached and have an object
at an end, each of them once and in the order in which they were attached. -/
structure ListsAttached (m : Model) (past : List Model) (e : Endpoint) (x : Key) (ks : List Key) :
    Prop where
  nodup : ks.Nodup
  mem_iff : ∀ k, k ∈ ks ↔
    ∃ c, m.connection? k = some c ∧ c.isConnected = true ∧ e.pick (c.source, c.target) = x
  no_relationship : ∀ k ∈ ks, m.concept? k = none
  ordered : ks.Pairwise fun a b => attachedFor (m :: past) b < attachedFor (m :: past) a

theorem isAttached_iff : m.isAttached k = true ↔
    ∃ c, m.connection? k = some c ∧ c.isConnected = true := by
  rw [isAttached, Option.any_eq_true]

theorem attachedFor_cons (n : Model) (states : List Model) (k : Key) :
    attachedFor (n :: states) k = if n.isAttached k then attachedFor states k + 1 else 0 := by
  rw [attachedFor, List.takeWhile_cons]
  cases n.isAttached k <;> rfl

theorem concept?_eq_none_of_connection? {c : Connection} (h : m.connection? k = some c) :
    m.concept? k = none := by
  obtain ⟨id, owner, ho⟩ := get?_of_connection? h
  exact concept?_of_get? ho

theorem Consistent.contains_end (h : m.Consistent) {c : Connection} (hc : m.connection? k = some c)
    (e : Endpoint) : m.contains (e.pick (c.source, c.target)) = true := by
  obtain ⟨v, -, -, -, -, hends⟩ := h.diagramsCoherent.connections k c hc
  have hend : e.pick (c.source, c.target) ∈ [c.source, c.target] := by
    cases e <;> simp [Endpoint.pick]
  obtain ⟨o, ho, -⟩ := Option.bind_eq_some_iff.1 (hends _ hend).2
  exact contains_of_get? ho

theorem Consistent.mem_connectionsBy (h : m.Consistent) : k ∈ m.connectionsBy e x ↔
    ∃ c, m.connection? k = some c ∧ c.isConnected = true ∧ e.pick (c.source, c.target) = x := by
  rw [connectionsBy_eq]
  refine ⟨fun hk => (h.links.mem_attached (contains_of_mem_attached hk) e).1 hk, fun hk => ?_⟩
  obtain ⟨c, hc, hconnected, rfl⟩ := hk
  exact (h.links.mem_attached (h.contains_end hc e) e).2 ⟨c, hc, hconnected, rfl⟩

theorem Consistent.filter_connectionsBy (h : m.Consistent) (hk : m.isAttached k = false) :
    (m.connectionsBy e x).filter (· ≠ k) = m.connectionsBy e x := by
  refine List.filter_eq_self.2 fun l hl => decide_eq_true ?_
  rintro rfl
  obtain ⟨c, hc, hconnected, -⟩ := h.mem_connectionsBy.1 hl
  rw [isAttached_iff.2 ⟨c, hc, hconnected⟩] at hk
  cases hk

/-! ## The order along a history -/

/-- The links to an end. -/
def linksBy (m : Model) (e : Endpoint) : List Link := m.links.filter (·.kind = e.linkKind)

/-- The connections that are attached to anything by an end. -/
def attachments (m : Model) (e : Endpoint) : List Key :=
  ((m.linksBy e).map (·.tail)).filter m.isConnection

theorem connectionsBy_sublist (m : Model) (e : Endpoint) (x : Key) :
    (m.connectionsBy e x).Sublist (m.attachments e) := by
  rw [connectionsBy_eq, attached, incoming]
  split
  · refine ((List.monotone_filter_right _ fun l hl => ?_).map _).filter _
    simp only [decide_eq_true_eq] at hl ⊢
    exact hl.1
  · exact List.nil_sublist _

theorem LinksExact.contains_of_mem_linksBy (h : m.LinksExact) {l : Link} (hl : l ∈ m.linksBy e) :
    m.contains l.tail = true := by
  obtain ⟨kind, tail, head⟩ := l
  obtain ⟨hl, rfl⟩ : _ ∧ kind = e.linkKind := by simpa [linksBy] using hl
  obtain ⟨o, ho, -⟩ := Option.bind_eq_some_iff.1 ((h.refers_iff e.linkKind_ne_contains).1 hl)
  exact contains_of_get? ho

theorem LinksExact.isAttached_of_mem (h : m.LinksExact) (hk : k ∈ m.attachments e) :
    m.isAttached k = true := by
  obtain ⟨hlink, hcon⟩ := List.mem_filter.1 hk
  obtain ⟨⟨kind, tail, head⟩, hl, rfl⟩ := List.mem_map.1 hlink
  obtain ⟨hl, rfl⟩ : _ ∧ kind = e.linkKind := by simpa [linksBy] using hl
  obtain ⟨c, hc⟩ := Option.isSome_iff_exists.1 hcon
  have hend := (h.refers_iff e.linkKind_ne_contains).1 hl
  rw [end?_of_connection? hc] at hend
  exact isAttached_iff.2 ⟨c, hc, (Option.ite_none_right_eq_some.1 hend).1⟩

/-- A change makes some links to an end, at most one, after all others, and it makes none for a
connection that is attached. -/
structure JoinsLast (m n : Model) (e : Endpoint) (made : List Link) : Prop where
  links : (n.linksBy e).Sublist (m.linksBy e ++ made)
  length_le : made.length ≤ 1
  not_attached : ∀ l ∈ made, m.isAttached l.tail = false

theorem JoinsLast.of_sublist (h : (n.linksBy e).Sublist (m.linksBy e)) : m.JoinsLast n e [] :=
  ⟨by rwa [List.append_nil], Nat.zero_le _, by simp⟩

theorem Effect.joinsLast {answer : Operation.Answer} (h : m.Effect answer n) (hs : m.objects.Sound)
    (e : Endpoint) : ∃ made, m.JoinsLast n e made := by
  have hnone (hlinks : n.links.Sublist m.links) : ∃ made, m.JoinsLast n e made :=
    ⟨[], .of_sublist (hlinks.filter _)⟩
  cases h with
  | described _ => exact hnone (.refl _)
  | unchanged => exact hnone (.refl _)
  | revised _ _ => exact hnone (.refl _)
  | renamed _ _ _ _ => exact hnone (.refl _)
  | detached _ _ _ => exact hnone (List.filter_sublist.trans List.filter_sublist)
  | cleared ho _ hks =>
    refine hnone ?_
    rw [links_cleared (fun x hx => contains_of_mem_doomed (hks.mem_iff.1 hx))
      (hks.nodup_iff.2 (m.doomed_nodup _))]
    exact List.filter_sublist
  | @moved k p _ _ _ _ _ _ =>
    -- The one link that is made leads from the new owner.
    have hlinks : (m.moved k p).linksBy e = (m.unlinkTo .contains k).linksBy e := by
      show ((m.unlinkTo .contains k).links ++ [(⟨.contains, p, k⟩ : Link)]).filter _ = _
      rw [List.filter_append]
      simp [linksBy, e.linkKind_ne_contains.symm]
    refine ⟨[], .of_sublist ?_⟩
    rw [hlinks]
    exact List.filter_sublist.filter _
  | @reattached k o c ho hc hcon =>
    refine ⟨[⟨e.linkKind, k, e.pick (c.source, c.target)⟩], ?_, Nat.le_refl _, ?_⟩
    · have hlinks : (m.reattached k c).links =
          m.links ++ [⟨.source, k, c.source⟩, ⟨.target, k, c.target⟩] :=
        List.append_assoc m.links [_] [_]
      rw [linksBy, hlinks, List.filter_append, linksBy]
      cases e <;> simp [Endpoint.linkKind, Endpoint.pick]
    · simp [isAttached, connection?_of_get? ho, hc, Body.connection?, hcon]
  | @added p b hfit =>
    have hlinks : (m.added p b).linksBy e = m.linksBy e ++ _ :=
      List.filter_append m.links ((Object.mk m.freshId.1 (some p) b).links m.nextKey)
    rw [Object.filter_links _ _ e.linkKind_ne_contains] at hlinks
    refine ⟨_, by rw [hlinks], Option.length_toList_le, fun l hl => ?_⟩
    obtain ⟨y, -, rfl⟩ := Option.map_eq_some_iff.1 (Option.mem_toList.1 hl)
    simp [isAttached, connection?, get?_nextKey hs]

theorem Step.joinsLast (hs : m.Step n) (h : m.objects.Sound) (e : Endpoint) :
    ∃ made, m.JoinsLast n e made := by
  rcases hs.eq_or_effect with rfl | ⟨answer, he⟩
  · exact ⟨[], .of_sublist (.refl _)⟩
  · exact he.joinsLast h e

/-- Of the connections that are attached after a change, those that were attached before come first and
have kept their order. -/
theorem JoinsLast.attachments_sublist (h : m.JoinsLast n e made) (hl : m.LinksExact)
    (hm : m.Numbered) (hf : m.Follows n) :
    (n.attachments e).Sublist (m.attachments e ++ made.map (·.tail)) := by
  -- Whatever was linked before was there before, and was a connection if it is one now.
  have hkept : ((m.linksBy e).map (·.tail)).filter n.isConnection =
      (m.attachments e).filter n.isConnection := by
    rw [attachments, List.filter_filter]
    refine List.filter_congr fun k hk => ?_
    obtain ⟨l, hmem, rfl⟩ := List.mem_map.1 hk
    have hlive : m.contains l.tail = true := hl.contains_of_mem_linksBy hmem
    have hwas : n.isConnection l.tail = true → m.isConnection l.tail = true := by
      simp only [isConnection_iff_role?]
      exact fun ⟨r, hr, hcon⟩ => ⟨r, hf.role?_eq hm hlive hr, hcon⟩
    cases hcon : n.isConnection l.tail with
    | false => rfl
    | true => rw [hwas hcon, Bool.and_self]
  have hsub := (h.links.map (·.tail)).filter n.isConnection
  rw [List.map_append, List.filter_append, hkept] at hsub
  exact hsub.trans (List.Sublist.append List.filter_sublist List.filter_sublist)

/-- What was attached before has been attached for longer than what was not. -/
theorem JoinsLast.ordered (h : m.JoinsLast n e made) (hm : m.LinksExact) (hn : n.LinksExact)
    (hsub : (n.attachments e).Sublist (m.attachments e ++ made.map (·.tail)))
    (hordered : (m.attachments e).Pairwise fun a b =>
      attachedFor (m :: past) b < attachedFor (m :: past) a) :
    (n.attachments e).Pairwise fun a b =>
      attachedFor (n :: m :: past) b < attachedFor (n :: m :: past) a := by
  have hall : (m.attachments e ++ made.map (·.tail)).Pairwise fun a b =>
      attachedFor (m :: past) b < attachedFor (m :: past) a := by
    refine List.pairwise_append.2 ⟨hordered, ?_, fun a ha b hb => ?_⟩
    · have hlength := h.length_le
      rcases made with - | ⟨l, - | ⟨l', rest⟩⟩
      · exact .nil
      · exact List.pairwise_singleton _ _
      · simp at hlength
    · obtain ⟨l, hl, rfl⟩ := List.mem_map.1 hb
      rw [attachedFor_cons, attachedFor_cons, h.not_attached l hl, hm.isAttached_of_mem ha]
      simp
  refine (hall.sublist hsub).imp_of_mem fun {a b} ha hb hab => ?_
  rw [attachedFor_cons n, attachedFor_cons n, if_pos (hn.isAttached_of_mem ha),
    if_pos (hn.isAttached_of_mem hb)]
  omega

theorem Reachable.exists_history (h : m.Reachable) : ∃ past, History (m :: past) := by
  induction h with
  | new instanceNumber name => exact ⟨[], .new instanceNumber name⟩
  | @copy m instanceNumber _ ih =>
    obtain ⟨past, hm⟩ := ih
    exact ⟨m :: past, .copy instanceNumber hm⟩
  | @step m n _ hs ih =>
    obtain ⟨past, hm⟩ := ih
    exact ⟨m :: past, .step hm hs⟩

namespace History

theorem reachable (h : History states) : ∀ m ∈ states, m.Reachable := by
  induction h with
  | new instanceNumber name => simpa using .new instanceNumber name
  | copy instanceNumber _ ih =>
    exact List.forall_mem_cons.2 ⟨.copy instanceNumber (ih _ List.mem_cons_self), ih⟩
  | step _ hs ih => exact List.forall_mem_cons.2 ⟨.step (ih _ List.mem_cons_self) hs, ih⟩

theorem attachments_ordered (h : History states) (hm : states.head? = some m) (e : Endpoint) :
    (m.attachments e).Pairwise fun a b => attachedFor states b < attachedFor states a := by
  induction h generalizing m with
  | new instanceNumber name =>
    obtain rfl := Option.some.inj hm
    have hnone : (Model.new instanceNumber name).attachments e = [] := rfl
    rw [hnone]
    exact .nil
  | @copy m' past instanceNumber h ih =>
    obtain rfl := Option.some.inj hm
    have hl := (h.reachable m' List.mem_cons_self).sound.links
    have hjoins : m'.JoinsLast (m'.copy instanceNumber) e [] := .of_sublist (.refl _)
    have hsub := hjoins.attachments_sublist hl (h.numbered m' List.mem_cons_self)
      ((Follows.refl m').congr rfl rfl)
    exact hjoins.ordered hl (hl.congr rfl fun _ => rfl) hsub (ih rfl)
  | @step m' n past h hs ih =>
    obtain rfl := Option.some.inj hm
    have hm' := h.reachable m' List.mem_cons_self
    obtain ⟨made, hjoins⟩ := hs.joinsLast hm'.sound.slots e
    have hsub := hjoins.attachments_sublist hm'.sound.links (h.numbered m' List.mem_cons_self)
      hs.follows
    exact hjoins.ordered hm'.sound.links (hm'.step hs).sound.links hsub (ih rfl)

theorem listsAttached (h : History (m :: past)) (e : Endpoint) (x : Key) :
    m.ListsAttached past e x (m.connectionsBy e x) := by
  have hm := (h.reachable m List.mem_cons_self).sound
  refine ⟨?_, fun k => hm.mem_connectionsBy, fun k hk => ?_, ?_⟩
  · rw [connectionsBy_eq]
    exact (hm.links.nodup_incoming _ _).filter _
  · obtain ⟨c, hc, -⟩ := hm.mem_connectionsBy.1 hk
    exact concept?_eq_none_of_connection? hc
  · exact (h.attachments_ordered rfl e).sublist (m.connectionsBy_sublist e x)

end History

/-! ## Detaching and attaching -/

/-- A connection can be detached and attached at any time.  Detached it is gone from all lists, and
attached again it comes last in those of its ends; there is nothing to repeat. -/
structure Reattachable (m : Model) (k : Key) (c : Connection) : Prop where
  disconnect_done : (m.apply (.disconnect k)).1 = .ok .done
  disconnect_gone : ∀ e x,
    (m.apply (.disconnect k)).2.connectionsBy e x = (m.connectionsBy e x).filter (· ≠ k)
  disconnect_again : (m.apply (.disconnect k)).2.apply (.disconnect k) =
    (.ok .done, (m.apply (.disconnect k)).2)
  reconnect_done : (m.apply (.reconnect k)).1 = .ok .done
  reconnect_last : c.isConnected = false → ∀ e x, (m.apply (.reconnect k)).2.connectionsBy e x =
    m.connectionsBy e x ++ if e.pick (c.source, c.target) = x then [k] else []
  reconnect_again : (m.apply (.reconnect k)).2.apply (.reconnect k) =
    (.ok .done, (m.apply (.reconnect k)).2)
  unchanged : m.apply (if c.isConnected then .reconnect k else .disconnect k) = (.ok .done, m)

section Change
variable {id : String} {owner : Option Key} {c : Connection}
  (ho : m.get? k = some ⟨id, owner, .connection c⟩)
include ho

theorem connectionsBy_reattached (h : m.Consistent) (e : Endpoint) (x : Key) :
    (m.reattached k c).connectionsBy e x =
      m.connectionsBy e x ++ if e.pick (c.source, c.target) = x then [k] else [] := by
  have hc : m.connection? k = some c := connection?_of_get? ho
  have hsame := (SameButAttachment.reattached List.mem_cons_self ho : m.SameButAttachment [k] _)
  have hcon : (m.reattached k c).isConnection = m.isConnection :=
    funext hsame.sameStructure.isConnection
  have hk : m.isConnection k = true := by rw [isConnection, hc, Option.isSome_some]
  have hlinks : (m.reattached k c).links =
      m.links ++ [⟨.source, k, c.source⟩, ⟨.target, k, c.target⟩] :=
    List.append_assoc m.links [_] [_]
  rw [connectionsBy_eq, connectionsBy_eq, attached, attached, hcon, incoming, incoming,
    hsame.sameStructure.contains, hlinks]
  by_cases hx : m.contains x = true
  · rw [if_pos hx, if_pos hx, List.filter_append, List.map_append, List.filter_append]
    congr 1
    by_cases hend : e.pick (c.source, c.target) = x <;> cases e <;>
      simp_all [Endpoint.linkKind, Endpoint.pick]
  · have hend : e.pick (c.source, c.target) ≠ x := fun hend => hx (hend ▸ h.contains_end hc e)
    rw [if_neg hx, if_neg hx, if_neg hend, List.append_nil]

theorem connectionsBy_detached (h : (m.detached k).Consistent) (e : Endpoint) (x : Key) :
    (m.detached k).connectionsBy e x = (m.connectionsBy e x).filter (· ≠ k) := by
  have hsame := (SameButAttachment.detached List.mem_cons_self ho : m.SameButAttachment [k] _)
  have hk : ((m.unlinkFrom .source k).unlinkFrom .target k).get? k =
    some ⟨id, owner, .connection c⟩ := ho
  have hdetached : (m.detached k).isAttached k = false := by
    rw [isAttached, connection?, detached, get?_update_of_get? hk, if_pos rfl]
    rfl
  have hfilter := hsame.filter_attached e.linkKind x
  simp only [List.mem_singleton] at hfilter
  rw [← h.filter_connectionsBy hdetached, connectionsBy_eq, connectionsBy_eq]
  exact hfilter

end Change

theorem Reachable.reattachable (h : m.Reachable) {c : Connection} (hc : m.connection? k = some c) :
    m.Reattachable k c := by
  obtain ⟨id, owner, ho⟩ := get?_of_connection? hc
  have hdisconnect := apply_disconnect ho
  have hreconnect := h.sound.apply_reconnect ho
  have hd : (m.apply (.disconnect k)).2.Reachable := h.step (.apply _)
  have hr : (m.apply (.reconnect k)).2.Reachable := h.step (.apply _)
  obtain ⟨hdetached, hattached⟩ := h.sound.connection?_apply hc
  obtain ⟨_, _, hdo⟩ := get?_of_connection? hdetached
  obtain ⟨_, _, hro⟩ := get?_of_connection? hattached
  refine ⟨by rw [hdisconnect], fun e x => ?_, by rw [apply_disconnect hdo]; rfl,
    by rw [hreconnect], fun hcon e x => ?_, by rw [hr.sound.apply_reconnect hro]; rfl, ?_⟩
  · rw [hdisconnect] at hd ⊢
    cases hcon : c.isConnected with
    | true =>
      rw [hcon, if_pos rfl] at hd
      exact connectionsBy_detached ho hd.sound.toConsistent e x
    | false =>
      have hfree : m.isAttached k = false := by rw [isAttached, hc, Option.any_some, hcon]
      exact (h.sound.filter_connectionsBy hfree).symm
  · rw [hreconnect, hcon]
    exact connectionsBy_reattached ho h.sound.toConsistent e x
  · cases hcon : c.isConnected with
    | true => rw [if_pos rfl, hreconnect, hcon, if_pos rfl]
    | false => rw [if_neg (by simp), hdisconnect, hcon, if_neg (by simp)]

/-! ## The property -/

/-- In every reachable model the connections at an object are those that are attached and have it at
that end, in the order in which they were attached, and every connection can be detached and attached
again. -/
theorem Reachable.connections_in_order (h : m.Reachable) :
    (∃ past, History (m :: past)) ∧
    (∀ past, History (m :: past) → ∀ x,
      m.ListsAttached past .source x (m.sourceConnections x) ∧
      m.ListsAttached past .target x (m.targetConnections x)) ∧
    ∀ k c, m.connection? k = some c → m.Reattachable k c :=
  ⟨h.exists_history, fun _ hpast x => ⟨hpast.listsAttached .source x, hpast.listsAttached .target x⟩,
    fun _ _ hc => h.reattachable hc⟩

/-- A connection from a note to itself that was attached again comes after one that was drawn later. -/
theorem connections_in_order_reattached :
    let view := (new 1 "Plan").nextKey
    let m₁ := ((new 1 "Plan").apply (.addView "Map")).2
    let note := m₁.nextKey
    let m₂ := (m₁.apply (.addNote view "here")).2
    let first := m₂.nextKey
    let m₃ := (m₂.apply (.addConnection note note)).2
    let second := m₃.nextKey
    let m₄ := (m₃.apply (.addConnection note note)).2
    let m₅ := (m₄.apply (.disconnect first)).2
    let n := (m₅.apply (.reconnect first)).2
    n.Reachable ∧ History [n, m₅, m₄, m₃, m₂, m₁, new 1 "Plan"] ∧
      n.sourceConnections note = [second, first] ∧ n.targetConnections note = [second, first] ∧
      n.ListsAttached [m₅, m₄, m₃, m₂, m₁, new 1 "Plan"] .source note [second, first] := by
  intro view m₁ note m₂ first m₃ second m₄ m₅ n
  have hn : n.Reachable :=
    .step (.step (.step (.step (.step (.step (.new 1 "Plan") (.apply _)) (.apply _)) (.apply _))
      (.apply _)) (.apply _)) (.apply _)
  have hhistory : History [n, m₅, m₄, m₃, m₂, m₁, new 1 "Plan"] :=
    .step (.step (.step (.step (.step (.step (.new 1 "Plan") (.apply _)) (.apply _)) (.apply _))
      (.apply _)) (.apply _)) (.apply _)
  have hsource : n.sourceConnections note = [second, first] := by decide
  have hlists := (hn.connections_in_order.2.1 _ hhistory note).1
  rw [hsource] at hlists
  exact ⟨hn, hhistory, hsource, by decide, hlists⟩

end Model
end ModelLabels
