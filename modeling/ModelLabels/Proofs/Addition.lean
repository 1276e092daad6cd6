import ModelLabels.Proofs.Attachment
import ModelLabels.Proofs.Removal
/-! # What adding does

An operation that adds an object adds one, with an identifier that nothing else has, as the last of what
its owner holds.  A connection comes last of the connections of its view, and last of those at its two
ends.  Nothing else changes, whatever slot the object got.

* `Operation.addition?`: the object that an operation adds, and its owner.
* `Operation.added_of_run`: an operation that adds does so and nothing else.
* `outgoing_added`, `incoming_added`: neighbours after an object was added.
* `Model.AddedTo`: what an addition does.
* `Reachable.addition_exact`: the property.
-/

namespace ModelLabels
set_option autoImplicit false

/-! ## The object that is added -/

/-- The view that something put into a container is drawn on. -/
def Model.canvas? (m : Model) (k : Key) : Option Key :=
  if (m.view? k).isSome then some k else (m.diagramObject? k).map (·.view)

theorem Model.canvas?_of_requireContainer {m : Model} {k : Key} {a : Object × Key}
    (h : m.requireContainer k = .ok a) : m.canvas? k = some a.2 := by
  rcases role?_of_requireContainer h with ⟨hview, hk⟩ | ⟨s, hs⟩
  · rw [canvas?, if_pos (view?_of_role? hview), hk]
  · obtain ⟨d, hd, hv⟩ := exists_diagramObject_of_role? hs
    have hnot : (m.view? k).isSome ≠ true := fun hview => by simp [view?_isSome_iff.1 hview] at hs
    rw [canvas?, if_neg hnot, hd, Option.map_some, hv]

namespace Operation
variable {m n : Model} {p k : Key} {b : Body}

/-- Whether an operation is one that adds an object. -/
def isAddition : Operation → Bool
  | addFolder _ _ | addElement _ _ | addElementIn _ _ _ | addRelationship _ _ _
  | addRelationshipIn _ _ _ _ | addView _ | addViewIn _ _ | addElementObject _ _ | addNote _ _
  | addGroup _ _ | addReference _ _ | addConnection _ _ | addRelationshipConnection _ _ _ => true
  | _ => false

/-- The object that an operation adds, by its owner and its body.  What is added without an owner being
named goes to a top-level folder, and a connection goes to the view that its source is drawn on. -/
def addition? (m : Model) : Operation → Option (Key × Body)
  | addFolder parent name =>
    (m.folder? parent).map fun f => (parent, .folder ⟨.named name, .user, f.rootType⟩)
  | addElement type name =>
    (m.topLevelFolder? (.forCategory type.category)).map (·, .concept ⟨.named name, .element type⟩)
  | addElementIn folder type name => some (folder, .concept ⟨.named name, .element type⟩)
  | addRelationship type source target =>
    (m.topLevelFolder? .relations).map
      (·, .concept ⟨.named "", .relationship type source target⟩)
  | addRelationshipIn folder type source target =>
    some (folder, .concept ⟨.named "", .relationship type source target⟩)
  | addView name => (m.topLevelFolder? .views).map (·, .view ⟨.named name⟩)
  | addViewIn folder name => some (folder, .view ⟨.named name⟩)
  | addElementObject container concept => drawn container (.element concept)
  | addNote container content => drawn container (.note content)
  | addGroup container name => drawn container (.group ⟨name, ""⟩)
  | addReference container view => drawn container (.reference view)
  | addConnection source target => line none source target
  | addRelationshipConnection relationship source target => line (some relationship) source target
  | _ => none
where
  drawn (container : Key) (shows : Shown) : Option (Key × Body) :=
    (m.canvas? container).map fun view => (container, .diagramObject ⟨shows, view⟩)
  line (relationship : Option Key) (source target : Key) : Option (Key × Body) :=
    (m.drawnOn? source).map (·, .connection ⟨⟨"", ""⟩, relationship, source, target, true⟩)

theorem added_of_commit {α : Type} {checked : Except EditError α} {p : α → Key} {b : α → Body}
    (h : Edit.commit checked m (fun a => (m.nextKey, m.added (p a) (b a))) = .ok k n) :
    ∃ a, checked = .ok a ∧ k = m.nextKey ∧ n = m.added (p a) (b a) := by
  obtain ⟨a, ha, hn⟩ := Edit.commit_eq_ok.1 h
  cases hn
  exact ⟨a, ha, rfl, rfl⟩

theorem topLevelFolder?_of_check {t : FolderType} {folder : Key} {e : EditError}
    (h : (match m.topLevelFolder? t with
      | some k => .ok k
      | none => .error e) = (.ok folder : Except EditError Key)) :
    m.topLevelFolder? t = some folder := by
  cases ht : m.topLevelFolder? t with
  | none =>
    rw [ht] at h
    cases h
  | some k =>
    rw [ht] at h
    cases h
    rfl

theorem added_of_addDiagramObject {container : Key} {shows : Shown}
    (h : Edit.addDiagramObject container shows m = .ok k n) :
    ∃ p b, addition?.drawn m container shows = some (p, b) ∧ k = m.nextKey ∧ n = m.added p b := by
  rw [Edit.addDiagramObject_apply] at h
  obtain ⟨a, ha, hk, hn⟩ := added_of_commit h
  refine ⟨_, _, ?_, hk, hn⟩
  rw [addition?.drawn, Model.canvas?_of_requireContainer ha]
  rfl

theorem added_of_addLine {relationship : Option Key} {source target : Key}
    (h : Edit.addLine relationship source target m = .ok k n) :
    ∃ p b, addition?.line m relationship source target = some (p, b) ∧ k = m.nextKey ∧
      n = m.added p b := by
  rw [Edit.addLine_apply] at h
  obtain ⟨view, ha, hk, hn⟩ := added_of_commit h
  obtain ⟨⟨o, view'⟩, hsource, ha⟩ := bind_eq_ok.1 ha
  obtain ⟨_, -, ha⟩ := bind_eq_ok.1 ha
  obtain ⟨-, hview⟩ := ite_throw_eq_ok.1 ha
  cases hview
  obtain ⟨ho, hdrawn⟩ := Model.requirePart_eq_ok.1 hsource
  refine ⟨_, _, ?_, hk, hn⟩
  rw [addition?.line, Model.drawnOn?_of_get? ho, hdrawn]
  rfl

/-- An operation that adds an object and is not refused adds it under the next key. -/
theorem added_of_run {op : Operation} (hop : op.isAddition = true) {answer : Answer}
    (h : op.run m = .ok answer n) :
    ∃ p b, op.addition? m = some (p, b) ∧ answer = .added m.nextKey ∧ n = m.added p b := by
  cases op with
  | addFolder parent name =>
    obtain ⟨k, hk, rfl⟩ := map_eq_ok h
    rw [Edit.addFolder_apply] at hk
    obtain ⟨⟨o, f⟩, ha, rfl, rfl⟩ := added_of_commit hk
    obtain ⟨ho, hf⟩ := Model.requirePart_eq_ok.1 ha
    refine ⟨_, _, ?_, rfl, rfl⟩
    rw [addition?, Model.folder?_of_get? ho, hf]
    rfl
  | addElement type name =>
    obtain ⟨k, hk, rfl⟩ := map_eq_ok h
    obtain ⟨folder, hfolder, hk⟩ := Edit.check_bind_eq_ok.1 hk
    rw [Edit.addElementIn_apply] at hk
    obtain ⟨-, -, rfl, rfl⟩ := added_of_commit hk
    refine ⟨_, _, ?_, rfl, rfl⟩
    rw [addition?, topLevelFolder?_of_check hfolder]
    rfl
  | addElementIn folder type name =>
    obtain ⟨k, hk, rfl⟩ := map_eq_ok h
    rw [Edit.addElementIn_apply] at hk
    obtain ⟨-, -, rfl, rfl⟩ := added_of_commit hk
    exact ⟨_, _, rfl, rfl, rfl⟩
  | addRelationship type source target =>
    obtain ⟨k, hk, rfl⟩ := map_eq_ok h
    obtain ⟨folder, hfolder, hk⟩ := Edit.check_bind_eq_ok.1 hk
    rw [Edit.addRelationshipIn_apply] at hk
    obtain ⟨-, -, rfl, rfl⟩ := added_of_commit hk
    refine ⟨_, _, ?_, rfl, rfl⟩
    rw [addition?, show m.topLevelFolder? .relations = _ from topLevelFolder?_of_check hfolder]
    rfl
  | addRelationshipIn folder type source target =>
    obtain ⟨k, hk, rfl⟩ := map_eq_ok h
    rw [Edit.addRelationshipIn_apply] at hk
    obtain ⟨-, -, rfl, rfl⟩ := added_of_commit hk
    exact ⟨_, _, rfl, rfl, rfl⟩
  | addView name =>
    obtain ⟨k, hk, rfl⟩ := map_eq_ok h
    obtain ⟨folder, hfolder, hk⟩ := Edit.check_bind_eq_ok.1 hk
    rw [Edit.addViewIn_apply] at hk
    obtain ⟨-, -, rfl, rfl⟩ := added_of_commit hk
    refine ⟨_, _, ?_, rfl, rfl⟩
    rw [addition?, topLevelFolder?_of_check hfolder]
    rfl
  | addViewIn folder name =>
    obtain ⟨k, hk, rfl⟩ := map_eq_ok h
    rw [Edit.addViewIn_apply] at hk
    obtain ⟨-, -, rfl, rfl⟩ := added_of_commit hk
    exact ⟨_, _, rfl, rfl, rfl⟩
  | addElementObject container concept =>
    obtain ⟨k, hk, rfl⟩ := map_eq_ok h
    obtain ⟨a, -, hk⟩ := Edit.check_bind_eq_ok.1 hk
    cases hrel : a.2.kind.isRelationship with
    | true => simp [hrel, Edit.throw_apply] at hk
    | false =>
      simp only [hrel, Bool.false_eq_true, if_false] at hk
      obtain ⟨p, b, hadds, rfl, hn⟩ := added_of_addDiagramObject hk
      exact ⟨p, b, hadds, rfl, hn⟩
  | addNote container content =>
    obtain ⟨k, hk, rfl⟩ := map_eq_ok h
    obtain ⟨p, b, hadds, rfl, hn⟩ := added_of_addDiagramObject hk
    exact ⟨p, b, hadds, rfl, hn⟩
  | addGroup container name =>
    obtain ⟨k, hk, rfl⟩ := map_eq_ok h
    obtain ⟨p, b, hadds, rfl, hn⟩ := added_of_addDiagramObject hk
    exact ⟨p, b, hadds, rfl, hn⟩
  | addReference container view =>
    obtain ⟨k, hk, rfl⟩ := map_eq_ok h
    obtain ⟨_, -, hk⟩ := Edit.check_bind_eq_ok.1 hk
    obtain ⟨p, b, hadds, rfl, hn⟩ := added_of_addDiagramObject hk
    exact ⟨p, b, hadds, rfl, hn⟩
  | addConnection source target =>
    obtain ⟨k, hk, rfl⟩ := map_eq_ok h
    obtain ⟨p, b, hadds, rfl, hn⟩ := added_of_addLine hk
    exact ⟨p, b, hadds, rfl, hn⟩
  | addRelationshipConnection relationship source target =>
    obtain ⟨k, hk, rfl⟩ := map_eq_ok h
    obtain ⟨a, -, hk⟩ := Edit.check_bind_eq_ok.1 hk
    cases hrel : a.2.kind.isRelationship with
    | false => simp [hrel, Edit.throw_apply] at hk
    | true =>
      simp only [hrel, if_true] at hk
      obtain ⟨p, b, hadds, rfl, hn⟩ := added_of_addLine hk
      exact ⟨p, b, hadds, rfl, hn⟩
  | _ => cases hop

/-- A connection is attached to its ends when it is added. -/
theorem isConnected_of_addition? {op : Operation} {c : Connection}
    (h : op.addition? m = some (p, .connection c)) : c.isConnected = true := by
  cases op with
  | addConnection source target =>
    obtain ⟨v, -, hv⟩ := Option.map_eq_some_iff.1 h
    cases hv
    rfl
  | addRelationshipConnection relationship source target =>
    obtain ⟨v, -, hv⟩ := Option.map_eq_some_iff.1 h
    cases hv
    rfl
  | _ => simp [addition?, addition?.drawn] at h

end Operation

namespace Model
variable {m n : Model} {p k x : Key} {b : Body}

/-! ## Neighbours -/

/-- As links have two ends that are there, nothing but the links decides over neighbours. -/
theorem Consistent.outgoing_eq_map (h : m.Consistent) (kind : LinkKind) (x : Key) :
    m.outgoing kind x = (m.links.filter fun l => l.kind = kind ∧ l.tail = x).map (·.head) := by
  rw [outgoing]
  split
  · rfl
  · next hx =>
    symm
    rw [List.map_eq_nil_iff, List.filter_eq_nil_iff]
    intro l hl hlx
    obtain ⟨-, rfl⟩ := of_decide_eq_true hlx
    exact hx (h.contains_ends hl).1

theorem Consistent.incoming_eq_map (h : m.Consistent) (kind : LinkKind) (x : Key) :
    m.incoming kind x = (m.links.filter fun l => l.kind = kind ∧ l.head = x).map (·.tail) := by
  rw [incoming]
  split
  · rfl
  · next hx =>
    symm
    rw [List.map_eq_nil_iff, List.filter_eq_nil_iff]
    intro l hl hlx
    obtain ⟨-, rfl⟩ := of_decide_eq_true hlx
    exact hx (h.contains_ends hl).2

theorem Consistent.contains_of_outgoing (h : m.Consistent) {kind : LinkKind}
    (hk : k ∈ m.outgoing kind x) : m.contains k = true := by
  rw [h.outgoing_eq_map] at hk
  obtain ⟨l, hl, rfl⟩ := List.mem_map.1 hk
  exact (h.contains_ends (List.mem_filter.1 hl).1).2

theorem Consistent.contains_of_incoming (h : m.Consistent) {kind : LinkKind}
    (hk : k ∈ m.incoming kind x) : m.contains k = true := by
  rw [h.incoming_eq_map] at hk
  obtain ⟨l, hl, rfl⟩ := List.mem_map.1 hk
  exact (h.contains_ends (List.mem_filter.1 hl).1).1

theorem get?_added (h : m.objects.Sound) (p : Key) (b : Body) (x : Key) :
    (m.added p b).get? x =
      if x = m.nextKey then some ⟨m.freshId.1, some p, b⟩ else m.get? x :=
  get?_inserted h (some p) b x

theorem get?_added_self (h : m.objects.Sound) (p : Key) (b : Body) :
    (m.added p b).get? m.nextKey = some ⟨m.freshId.1, some p, b⟩ :=
  (get?_added h p b _).trans (if_pos rfl)

theorem get?_added_of_ne (h : m.objects.Sound) (p : Key) (b : Body) (hx : x ≠ m.nextKey) :
    (m.added p b).get? x = m.get? x :=
  (get?_added h p b x).trans (if_neg hx)

theorem not_contains_nextKey (h : m.objects.Sound) : m.contains m.nextKey = false :=
  congrArg Option.isSome (get?_nextKey h)

theorem get?_added_of_contains (h : m.objects.Sound) (p : Key) (b : Body)
    (hx : m.contains x = true) : (m.added p b).get? x = m.get? x := by
  refine get?_added_of_ne h p b ?_
  rintro rfl
  rw [not_contains_nextKey h] at hx
  cases hx

theorem isConnection_added_self (h : m.objects.Sound) (p : Key) (b : Body) :
    (m.added p b).isConnection m.nextKey = b.connection?.isSome := by
  rw [isConnection, connection?_of_get? (get?_added_self h p b)]

theorem isConnection_added_of_contains (h : m.objects.Sound) (p : Key) (b : Body)
    (hx : m.contains x = true) : (m.added p b).isConnection x = m.isConnection x := by
  rw [isConnection, connection?, get?_added_of_contains h p b hx, isConnection, connection?]

section Added
variable (hm : m.Consistent) (hn : (m.added p b).Consistent)
include hm hn

theorem outgoing_added (x : Key) :
    (m.added p b).outgoing .contains x =
      m.outgoing .contains x ++ if x = p then [m.nextKey] else [] := by
  have hlinks : (b.links m.nextKey).filter (fun l => l.kind = .contains ∧ l.tail = x) = [] :=
    List.filter_eq_nil_iff.2 fun l hl => by simp [(Body.mem_links.1 hl).1]
  have happend : (m.added p b).links = m.links ++ ⟨.contains, p, m.nextKey⟩ :: b.links m.nextKey := rfl
  rw [hn.outgoing_eq_map, hm.outgoing_eq_map, happend, List.filter_append, List.map_append,
    List.filter_cons, hlinks]
  congr 1
  by_cases hx : x = p
  · simp [hx]
  · simp [hx, Ne.symm hx]

theorem incoming_added {kind : LinkKind} (hkind : kind ≠ .contains) (x : Key) :
    (m.added p b).incoming kind x =
      m.incoming kind x ++ if b.end? kind = some x then [m.nextKey] else [] := by
  let o : Object := ⟨m.freshId.1, some p, b⟩
  have hlinks : (o.links m.nextKey).filter (fun l => l.kind = kind ∧ l.head = x) =
      (((b.end? kind).map (⟨kind, m.nextKey, ·⟩)).toList).filter (·.head = x) := by
    rw [← o.filter_links m.nextKey hkind, List.filter_filter]
    refine List.filter_congr fun l _ => ?_
    simp [and_comm]
  have happend : (m.added p b).links = m.links ++ o.links m.nextKey := rfl
  rw [hn.incoming_eq_map, hm.incoming_eq_map, happend, List.filter_append, List.map_append, hlinks]
  cases b.end? kind with
  | none => simp
  | some y => by_cases hy : y = x <;> simp [hy]

theorem children_added (x : Key) :
    (m.added p b).children x =
      m.children x ++ if x = p ∧ b.connection? = none then [m.nextKey] else [] := by
  have hkept : (m.outgoing .contains x).filter (fun c => !(m.added p b).isConnection c) =
      m.children x :=
    List.filter_congr fun c hc => by
      rw [isConnection_added_of_contains hm.slots p b (hm.contains_of_outgoing hc)]
  rw [children, outgoing_added hm hn, List.filter_append, hkept]
  congr 1
  by_cases hx : x = p
  · cases hb : b.connection? <;> simp [hx, hb, isConnection_added_self hm.slots]
  · simp [hx]

theorem viewConnections_added (hp : m.contains p = true)
    (hview : b.connection? ≠ none → (m.view? p).isSome = true) (x : Key) :
    (m.added p b).viewConnections x =
      m.viewConnections x ++ if x = p ∧ b.connection? ≠ none then [m.nextKey] else [] := by
  have hkept : (m.outgoing .contains x).filter (m.added p b).isConnection =
      (m.outgoing .contains x).filter m.isConnection :=
    List.filter_congr fun c hc =>
      isConnection_added_of_contains hm.slots p b (hm.contains_of_outgoing hc)
  have hout : ((m.added p b).outgoing .contains x).filter (m.added p b).isConnection =
      (m.outgoing .contains x).filter m.isConnection ++
        if x = p ∧ b.connection? ≠ none then [m.nextKey] else [] := by
    rw [outgoing_added hm hn, List.filter_append, hkept]
    congr 1
    by_cases hx : x = p
    · cases hb : b.connection? <;> simp [hx, hb, isConnection_added_self hm.slots]
    · simp [hx]
  rw [viewConnections, viewConnections, hout]
  by_cases hx : x = m.nextKey
  · -- The new object owns nothing, be it a view or not.
    have hxp : x ≠ p := fun hxp => by
      rw [← hxp, hx, not_contains_nextKey hm.slots] at hp
      cases hp
    have hnone : m.outgoing .contains x = [] := by
      rw [outgoing, hx, not_contains_nextKey hm.slots, if_neg Bool.false_ne_true]
    simp [hnone, hxp]
  · rw [view?, get?_added_of_ne hm.slots p b hx, ← view?]
    by_cases hv : (m.view? x).isSome = true
    · rw [if_pos hv, if_pos hv]
    · have hnot : ¬ (x = p ∧ b.connection? ≠ none) := by
        rintro ⟨rfl, hb⟩
        exact hv (hview hb)
      rw [if_neg hv, if_neg hv, if_neg hnot]
      rfl

theorem attached_added {kind : LinkKind} (hkind : kind ≠ .contains) (x : Key) :
    (m.added p b).attached kind x = m.attached kind x ++
      if b.end? kind = some x ∧ b.connection? ≠ none then [m.nextKey] else [] := by
  have hkept : (m.incoming kind x).filter (m.added p b).isConnection = m.attached kind x :=
    List.filter_congr fun c hc =>
      isConnection_added_of_contains hm.slots p b (hm.contains_of_incoming hc)
  rw [attached, incoming_added hm hn hkind, List.filter_append, hkept]
  congr 1
  by_cases hx : b.end? kind = some x
  · cases hb : b.connection? <;> simp [hx, hb, isConnection_added_self hm.slots]
  · simp [hx]

end Added

/-! ## The property -/

/-- An object more, which an owner holds: what changes, and that nothing else does.  The lists are
those of any object, the new one too. -/
structure AddedTo (m : Model) (p : Key) (b : Body) (k : Key) (n : Model) : Prop where
  owner : m.contains p = true
  fresh : m.contains k = false
  added : ∃ id, n.get? k = some ⟨id, some p, b⟩ ∧ id ≠ "" ∧ id ∉ m.usedIds ∧ id ≠ n.id ∧
    ∀ x, n.idOf? x = some id → x = k
  others : ∀ x, x ≠ k → n.get? x = m.get? x
  keys : n.objects.keys = m.objects.keys ++ [k]
  rest : { n with
    objects := m.objects, links := m.links, usedIds := m.usedIds, lastId := m.lastId
    lastSerial := m.lastSerial, version := m.version } = m
  size : n.size = m.size + 1
  version : n.version = m.version + 1
  joins : ∀ c, b.connection? = some c → c.isConnected = true ∧ (m.view? p).isSome = true ∧
    m.drawnOn? c.source = some p ∧ m.drawnOn? c.target = some p
  children : ∀ x, n.children x =
    m.children x ++ if x = p ∧ b.connection? = none then [k] else []
  viewConnections : ∀ x, n.viewConnections x =
    m.viewConnections x ++ if x = p ∧ b.connection? ≠ none then [k] else []
  sourceConnections : ∀ x, n.sourceConnections x =
    m.sourceConnections x ++ if b.connection?.map (·.source) = some x then [k] else []
  targetConnections : ∀ x, n.targetConnections x =
    m.targetConnections x ++ if b.connection?.map (·.target) = some x then [k] else []

/-- What is added as a connection joins two components of the view it is added to. -/
theorem Fits.joins {id : String} {c : Connection} (h : m.Fits ⟨id, some p, b⟩)
    (hd : m.DrawnOnViews) (hc : b.connection? = some c) :
    (m.view? p).isSome = true ∧ m.drawnOn? c.source = some p ∧ m.drawnOn? c.target = some p := by
  obtain rfl := Body.eq_of_connection? hc
  obtain ⟨-, ⟨-, hends⟩, -⟩ := h
  obtain ⟨q, hq, hqp⟩ := hends c.source (by simp)
  obtain ⟨r, hr, hrp⟩ := hends c.target (by simp)
  exact ⟨view?_of_role? (hd hq hqp), (drawnOn?_of_role? hq).trans hqp,
    (drawnOn?_of_role? hr).trans hrp⟩

theorem Sound.addedTo (h : m.Sound) (hfit : ∀ id, m.Fits ⟨id, some p, b⟩)
    (hcon : ∀ c, b.connection? = some c → c.isConnected = true) :
    m.AddedTo p b m.nextKey (m.added p b) := by
  have hn : (m.added p b).Sound := h.effect (.added hfit)
  have hself := get?_added_self h.slots p b
  have hid : (m.added p b).idOf? m.nextKey = some m.freshId.1 := by
    rw [idOf?, hself]
    rfl
  have hp : m.contains p = true := (hfit "").contains_of_mentions h.drawn (.inl rfl)
  have hjoins (c : Connection) (hc : b.connection? = some c) := (hfit "").joins h.drawn hc
  have hends (e : Endpoint) (x : Key) : (b.end? e.linkKind = some x ∧ b.connection? ≠ none) ↔
      b.connection?.map (fun c => e.pick (c.source, c.target)) = some x := by
    cases hc : b.connection? with
    | none => simp
    | some c =>
      obtain rfl := Body.eq_of_connection? hc
      cases e <;> simp [Body.end?, Endpoint.linkKind, Endpoint.pick, hcon c hc]
  have hattached (e : Endpoint) (x : Key) : (m.added p b).attached e.linkKind x =
      m.attached e.linkKind x ++
        if b.connection?.map (fun c => e.pick (c.source, c.target)) = some x then [m.nextKey]
        else [] := by
    rw [attached_added h.toConsistent hn.toConsistent e.linkKind_ne_contains]
    simp only [hends]
  have hkeys : (m.added p b).objects.keys = m.objects.keys ++ [m.nextKey] :=
    Store.keys_insert _ _ _
  refine
    { owner := hp
      fresh := not_contains_nextKey h.slots
      added := ⟨_, hself, idText_ne_empty _, m.freshId_not_mem, ?_, fun x hx => ?_⟩
      others := fun x hx => get?_added_of_ne h.slots p b hx
      keys := hkeys
      rest := rfl
      size := List.length_append
      version := rfl
      joins := fun c hc => ⟨hcon c hc, hjoins c hc⟩
      children := children_added h.toConsistent hn.toConsistent
      viewConnections := viewConnections_added h.toConsistent hn.toConsistent hp fun hc => ?_
      sourceConnections := hattached .source
      targetConnections := hattached .target }
  · exact fun he => hn.ids.ne_id _ (he ▸ hid)
  · exact hn.ids.injective hx hid
  · obtain ⟨c, hc⟩ := Option.ne_none_iff_exists'.1 hc
    exact (hjoins c hc).1

/-- In every reachable model an operation that adds an object and is not refused adds the one it is
asked for, as the last of what its owner holds, and changes nothing else. -/
theorem Reachable.addition_exact (h : m.Reachable) {op : Operation} (hop : op.isAddition = true)
    {answer : Operation.Answer} (hadd : m.apply op = (.ok answer, n)) :
    ∃ k p b, answer = .added k ∧ op.addition? m = some (p, b) ∧ m.AddedTo p b k n := by
  have hrun := run_of_apply hadd
  obtain ⟨p, b, hasked, rfl, rfl⟩ := Operation.added_of_run hop hrun
  refine ⟨m.nextKey, p, b, rfl, hasked, h.sound.addedTo (op.effect_of_run hrun).fits_of_added ?_⟩
  intro c hc
  rw [Body.eq_of_connection? hc] at hasked
  exact Operation.isConnected_of_addition? hasked

/-- A connection that takes the slot of one that was removed comes last of those at its note, after one
that is older than it. -/
theorem addition_exact_reused_slot :
    let view := (new 1 "Plan").nextKey
    let m₁ := ((new 1 "Plan").apply (.addView "Map")).2
    let note := m₁.nextKey
    let m₂ := (m₁.apply (.addNote view "here")).2
    let gone := m₂.nextKey
    let m₃ := (m₂.apply (.addConnection note note)).2
    let kept := m₃.nextKey
    let m₄ := (m₃.apply (.addConnection note note)).2
    let m := m₄.cleared [gone]
    let line := m.nextKey
    let n := (m.apply (.addConnection note note)).2
    m.Reachable ∧ m.apply (.addConnection note note) = (.ok (.added line), n) ∧
      line.slot = gone.slot ∧ n.sourceConnections note = [kept, line] ∧
      n.viewConnections view = [kept, line] ∧ n.children view = [note] ∧ n.size = m.size + 1 := by
  intro view m₁ note m₂ gone m₃ kept m₄ m line n
  have hm₄ : m₄.Reachable :=
    .step (.step (.step (.step (.new 1 "Plan") (.apply _)) (.apply _)) (.apply _)) (.apply _)
  have hgone : m₄.contains gone = true := by decide +kernel
  have hdoomed : m₄.doomed gone = [gone] := doomed_eq_singleton hgone (by decide +kernel)
  obtain ⟨o, ho⟩ := contains_iff_get?.1 hgone
  have htop : o.isTopLevel = false := by
    have hnot : (m₄.get? gone).all (!·.isTopLevel) = true := by decide +kernel
    simpa [ho] using hnot
  have hm : m.Reachable := .step hm₄ (.clear ho htop (.of_eq hdoomed.symm))
  have hanswer : (m.apply (.addConnection note note)).1 = .ok (.added line) := by decide +kernel
  have happly : m.apply (.addConnection note note) = (.ok (.added line), n) := by rw [← hanswer]
  obtain ⟨k, p, b, hk, hasked, hadded⟩ := hm.addition_exact rfl happly
  obtain rfl : line = k := Operation.Answer.added.inj hk
  obtain ⟨rfl, rfl⟩ : view = p ∧ Body.connection ⟨⟨"", ""⟩, none, note, note, true⟩ = b := by
    have hview : Operation.addition? m (.addConnection note note) =
        some (view, .connection ⟨⟨"", ""⟩, none, note, note, true⟩) := by decide +kernel
    simpa using hview.symm.trans hasked
  have hsource : m.sourceConnections note = [kept] := by decide +kernel
  have hview : m.viewConnections view = [kept] := by decide +kernel
  have hchildren : m.children view = [note] := by decide +kernel
  refine ⟨hm, happly, by decide +kernel, ?_, ?_, ?_, hadded.size⟩
  · rw [hadded.sourceConnections, hsource]
    rfl
  · rw [hadded.viewConnections, hview]
    rfl
  · rw [hadded.children, hchildren]
    rfl

end Model
end ModelLabels
