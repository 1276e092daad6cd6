import Mathlib.Data.List.Nodup
import Mathlib.Data.List.Perm.Basic
import ModelLabels.Proofs.Integrity.Slots
import ModelLabels.Proofs.Role
/-! # Links are exact

Every link is one that an object calls for: by its owner, or by what it refers to.  So what the links
say and what the objects say is the same.

* `Link.origin`: the object that calls for a link.
* `Model.LinksExact`: the property, and what each change does to it.
* `Model.LinksExact.incoming_contains`, `outgoing_eq`: links read back from objects.
-/

namespace ModelLabels
set_option autoImplicit false

/-! ## The objects that call for links -/

/-- The object that calls for a link: the one that is owned, or the one that refers. -/
def Link.origin (l : Link) : Key := if l.kind = .contains then l.head else l.tail

theorem Link.origin_contains (p k : Key) : (Link.mk .contains p k).origin = k := rfl

theorem Link.origin_of_ne {kind : LinkKind} (h : kind ≠ .contains) (k head : Key) :
    (Link.mk kind k head).origin = k := if_neg h

theorem Link.origin_eq (l : Link) : l.origin = l.head ∨ l.origin = l.tail := by
  unfold origin
  split
  · exact .inl rfl
  · exact .inr rfl

theorem Link.origin_of_ends {l : Link} (h : l.kind = .source ∨ l.kind = .target) :
    l.origin = l.tail := by
  apply if_neg
  rcases h with h | h <;> rw [h] <;> decide

theorem Body.mem_links {b : Body} {k : Key} {l : Link} :
    l ∈ b.links k ↔ l.kind ≠ .contains ∧ l.tail = k ∧ b.end? l.kind = some l.head := by
  obtain ⟨kind, tail, head⟩ := l
  have hnone : b.end? .contains = none := by cases b <;> rfl
  cases kind <;> simp [links, eq_comm, and_comm, hnone]

theorem Object.mem_links_contains {o : Object} {k p c : Key} :
    ⟨.contains, p, c⟩ ∈ o.links k ↔ c = k ∧ o.owner = some p := by
  simp [links, Body.mem_links, and_comm, eq_comm]

theorem Object.mem_links_of_ne {o : Object} {k tail head : Key} {kind : LinkKind}
    (h : kind ≠ .contains) : ⟨kind, tail, head⟩ ∈ o.links k ↔
      tail = k ∧ o.body.end? kind = some head := by
  simp [links, Body.mem_links, h, Ne.symm h]

theorem Object.origin_of_mem_links {o : Object} {k : Key} {l : Link} (h : l ∈ o.links k) :
    l.origin = k := by
  obtain ⟨kind, tail, head⟩ := l
  by_cases hkind : kind = .contains
  · subst hkind
    exact (mem_links_contains.1 h).1
  · rw [Link.origin_of_ne hkind]
    exact ((mem_links_of_ne hkind).1 h).1

theorem Object.nodup_links (o : Object) (k : Key) : (o.links k).Nodup := by
  simp only [links, Body.links, List.flatMap_cons, List.flatMap_nil]
  generalize o.owner = owner
  generalize o.body.end? .source = source
  generalize o.body.end? .target = target
  generalize o.body.end? .shows = shown
  cases owner <;> cases source <;> cases target <;> cases shown <;> simp

theorem Object.mem_links_detached {o : Object} {k : Key} {l : Link} {c : Connection}
    (hc : o.body = .connection c) : l ∈ { o with body := o.body.withConnected false }.links k ↔
      l ∈ o.links k ∧ ¬ (l.kind = .source ∨ l.kind = .target) := by
  obtain ⟨kind, tail, head⟩ := l
  cases kind with
  | contains => simp [mem_links_contains]
  | _ => simp [mem_links_of_ne, hc, Body.withConnected, Body.end?]

theorem Object.mem_links_reattached {o : Object} {k : Key} {l : Link} {c : Connection}
    (hc : o.body = .connection c) (hcon : c.isConnected = false) :
    l ∈ { o with body := o.body.withConnected true }.links k ↔
      l ∈ o.links k ∨ l ∈ [⟨.source, k, c.source⟩, (⟨.target, k, c.target⟩ : Link)] := by
  obtain ⟨kind, tail, head⟩ := l
  cases kind with
  | contains => simp [mem_links_contains]
  | shows => simp [mem_links_of_ne, hc, Body.withConnected, Body.end?]
  | source | target => simp [mem_links_of_ne, hc, hcon, Body.withConnected, Body.end?, eq_comm]

theorem Body.end?_outline (kind : LinkKind) (b : Body) : b.outline.end? kind = b.end? kind := by
  cases b with
  | diagramObject d =>
    cases kind with
    | shows => exact d.shows.subject?_outline
    | _ => rfl
  | _ => cases kind <;> rfl

theorem Object.links_congr {o p : Object} (ho : o.owner = p.owner)
    (hb : o.body.outline = p.body.outline) (k : Key) : o.links k = p.links k := by
  have hend : ∀ kind, o.body.end? kind = p.body.end? kind := fun kind => by
    rw [← Body.end?_outline, hb, Body.end?_outline]
  simp only [links, Body.links, ho, hend]

namespace Model
variable {m n : Model} {k : Key}

def linksOf (m : Model) (k : Key) : List Link := ((m.get? k).map (·.links k)).getD []

theorem linksOf_of_get? {o : Object} (h : m.get? k = some o) : m.linksOf k = o.links k := by
  rw [linksOf, h]
  rfl

theorem linksOf_of_get?_none (h : m.get? k = none) : m.linksOf k = [] := by
  rw [linksOf, h]
  rfl

/-- The other end of the link of a kind that the object under a key calls for. -/
def end? (m : Model) (kind : LinkKind) (k : Key) : Option Key :=
  (m.get? k).bind (·.body.end? kind)

theorem mem_linksOf_contains {p : Key} :
    ⟨.contains, p, k⟩ ∈ m.linksOf k ↔ m.owner? k = some p := by
  cases h : m.get? k with
  | none => simp [linksOf, owner?, h]
  | some o =>
    rw [linksOf_of_get? h, owner?_of_get? h, Object.mem_links_contains]
    simp

theorem mem_linksOf_of_ne {kind : LinkKind} {head : Key} (hkind : kind ≠ .contains) :
    ⟨kind, k, head⟩ ∈ m.linksOf k ↔ m.end? kind k = some head := by
  cases h : m.get? k with
  | none => simp [linksOf, end?, h]
  | some o =>
    rw [linksOf_of_get? h, Object.mem_links_of_ne hkind, end?, h]
    simp

/-! ## The property -/

/-- The links of a model are those that its objects call for, each once. -/
structure LinksExact (m : Model) : Prop where
  mem_links : ∀ l, l ∈ m.links ↔ l ∈ m.linksOf l.origin
  nodup : m.links.Nodup

theorem links_cleared {ks : List Key} (hlive : ∀ k ∈ ks, m.contains k = true)
    (hnodup : ks.Nodup) :
    (m.cleared ks).links = m.links.filter fun l => l.tail ∉ ks ∧ l.head ∉ ks := by
  show (ks.foldl erase m).links = _
  induction ks generalizing m with
  | nil => simp
  | cons k ks ih =>
    obtain ⟨hk, hnodup⟩ := List.nodup_cons.1 hnodup
    obtain ⟨o, ho⟩ := contains_iff_get?.1 (hlive k List.mem_cons_self)
    have hlinks : (m.erase k).links = m.links.filter fun l => l.tail ≠ k ∧ l.head ≠ k := by
      rw [erase, ho]
    have hrest : ∀ l ∈ ks, (m.erase k).contains l = true := by
      intro l hl
      obtain ⟨p, hp⟩ := contains_iff_get?.1 (hlive l (List.mem_cons_of_mem _ hl))
      have hne : l ≠ k := fun he => hk (he ▸ hl)
      exact contains_of_get? (((m.get?_erase k l).trans (if_neg hne)).trans hp)
    rw [List.foldl_cons, ih hrest hnodup, hlinks, List.filter_filter]
    refine List.filter_congr fun l _ => ?_
    simp only [List.mem_cons, Bool.decide_and, decide_not, not_or, ne_eq]
    cases decide (l.tail ∈ ks) <;> cases decide (l.head ∈ ks) <;> cases decide (l.tail = k) <;>
      cases decide (l.head = k) <;> rfl

namespace LinksExact

theorem contains_iff (h : m.LinksExact) {p : Key} :
    ⟨.contains, p, k⟩ ∈ m.links ↔ m.owner? k = some p :=
  (h.mem_links _).trans mem_linksOf_contains

theorem refers_iff (h : m.LinksExact) {kind : LinkKind} {head : Key} (hkind : kind ≠ .contains) :
    ⟨kind, k, head⟩ ∈ m.links ↔ m.end? kind k = some head := by
  rw [h.mem_links, Link.origin_of_ne hkind]
  exact mem_linksOf_of_ne hkind

theorem congr (h : m.LinksExact) (hlinks : n.links = m.links)
    (hof : ∀ k, n.linksOf k = m.linksOf k) : n.LinksExact where
  mem_links l := by
    rw [hlinks, hof]
    exact h.mem_links l
  nodup := hlinks ▸ h.nodup

/-- An object comes or changes, and the links that it called for give way to those it calls for. -/
theorem relink (h : m.LinksExact) {o : Object}
    (hget : ∀ l, n.get? l = if l = k then some o else m.get? l)
    (hother : ∀ l : Link, l.origin ≠ k → (l ∈ n.links ↔ l ∈ m.links))
    (hown : ∀ l : Link, l.origin = k → (l ∈ n.links ↔ l ∈ o.links k))
    (hnodup : n.links.Nodup) : n.LinksExact where
  mem_links l := by
    by_cases hk : l.origin = k
    · rw [hown l hk, hk, linksOf_of_get? ((hget k).trans (if_pos rfl))]
    · rw [hother l hk, h.mem_links, linksOf, linksOf, hget, if_neg hk]
  nodup := hnodup

theorem inserted (h : m.LinksExact) (hs : m.objects.Sound) (owner : Option Key) (b : Body) :
    (m.inserted owner b).LinksExact := by
  have hnone : m.get? m.nextKey = none := get?_nextKey hs
  have hfresh : ∀ l ∈ m.links, l.origin ≠ m.nextKey := by
    intro l hl he
    rw [h.mem_links, he, linksOf_of_get?_none hnone] at hl
    exact List.not_mem_nil hl
  refine h.relink (o := ⟨m.freshId.1, owner, b⟩) (get?_inserted hs owner b) (fun l hl => ?_)
    (fun l hl => ?_) ?_
  · show l ∈ m.links ++ _ ↔ _
    have hnot : l ∉ Object.links m.nextKey ⟨m.freshId.1, owner, b⟩ := fun hl' =>
      hl (Object.origin_of_mem_links hl')
    rw [List.mem_append, or_iff_left hnot]
  · show l ∈ m.links ++ _ ↔ _
    rw [List.mem_append, or_iff_right fun hl' => hfresh l hl' hl]
  · refine List.nodup_append'.2 ⟨h.nodup, Object.nodup_links _ _, fun l hl hl' => ?_⟩
    exact hfresh l hl (Object.origin_of_mem_links hl')

theorem updated (h : m.LinksExact) {o : Object} {f : Object → Object} (ho : m.get? k = some o)
    (hobjects : n.objects = m.objects.update k f) (hlinks : n.links = m.links)
    (hf : (f o).links k = o.links k) : n.LinksExact := by
  refine h.congr hlinks fun l => ?_
  have hget := get?_of_objects_eq ho hobjects l
  by_cases hl : l = k
  · subst hl
    rw [if_pos rfl] at hget
    rw [linksOf_of_get? hget, linksOf_of_get? ho, hf]
  · rw [linksOf, hget, if_neg hl, linksOf]

theorem mem_links_iff (h : m.LinksExact) {o : Object} (ho : m.get? k = some o) {l : Link}
    (hl : l.origin = k) : l ∈ m.links ↔ l ∈ o.links k := by
  rw [h.mem_links, hl, linksOf_of_get? ho]

theorem detached (h : m.LinksExact) {o : Object} {c : Connection} (ho : m.get? k = some o)
    (hc : o.body = .connection c) : (m.detached k).LinksExact := by
  have hkept : ∀ l, l ∈ (m.detached k).links ↔
      l ∈ m.links ∧ ¬ ((l.kind = .source ∨ l.kind = .target) ∧ l.tail = k) := by
    intro l
    show l ∈ (m.links.filter _).filter _ ↔ _
    simp only [List.mem_filter, decide_eq_true_eq, and_assoc, or_and_right, not_or]
  refine h.relink (get?_update_of_get? ho _) (fun l hl => ?_) (fun l hl => ?_)
    ((h.nodup.sublist List.filter_sublist).sublist List.filter_sublist)
  · rw [hkept, and_iff_left]
    rintro ⟨hkind, rfl⟩
    exact hl (Link.origin_of_ends hkind)
  · rw [hkept, h.mem_links_iff ho hl, Object.mem_links_detached hc]
    refine and_congr_right fun _ => not_congr (and_iff_left_of_imp fun hkind => ?_)
    exact (Link.origin_of_ends hkind).symm.trans hl

theorem reattached (h : m.LinksExact) {o : Object} {c : Connection} (ho : m.get? k = some o)
    (hc : o.body = .connection c) (hcon : c.isConnected = false) :
    (m.reattached k c).LinksExact := by
  have hlinks : (m.reattached k c).links =
      m.links ++ [⟨.source, k, c.source⟩, ⟨.target, k, c.target⟩] :=
    List.append_assoc m.links [_] [_]
  have horigin : ∀ l ∈ [⟨.source, k, c.source⟩, (⟨.target, k, c.target⟩ : Link)],
      l.origin = k ∧ (l.kind = .source ∨ l.kind = .target) := by
    simp [Link.origin]
  refine h.relink (get?_update_of_get? ho _) (fun l hl => ?_) (fun l hl => ?_) ?_
  · rw [hlinks, List.mem_append, or_iff_left]
    exact fun hl' => hl (horigin l hl').1
  · rw [hlinks, List.mem_append, h.mem_links_iff ho hl, Object.mem_links_reattached hc hcon]
  · rw [hlinks]
    refine List.nodup_append'.2 ⟨h.nodup, by simp, fun l hl hl' => ?_⟩
    obtain ⟨hk, hkind⟩ := horigin l hl'
    -- A connection that is detached calls for no links to its ends.
    have hdetached : { o with body := o.body.withConnected false } = o := by
      rw [hc, Body.withConnected, ← hcon, ← hc]
    rw [h.mem_links_iff ho hk, ← hdetached, Object.mem_links_detached hc] at hl
    exact hl.2 hkind

theorem moved (h : m.LinksExact) {o : Object} (ho : m.get? k = some o) (p : Key) :
    (m.moved k p).LinksExact := by
  have hkept : ∀ l, l ∈ (m.moved k p).links ↔
      (l ∈ m.links ∧ ¬ (l.kind = .contains ∧ l.head = k)) ∨ l = ⟨.contains, p, k⟩ := by
    intro l
    show l ∈ m.links.filter _ ++ [_] ↔ _
    simp only [List.mem_append, List.mem_filter, decide_eq_true_eq, List.mem_singleton]
  refine h.relink (get?_update_of_get? ho _) (fun l hl => ?_) (fun l hl => ?_) ?_
  · rw [hkept, or_iff_left, and_iff_left]
    · rintro ⟨hkind, hk⟩
      rw [Link.origin, if_pos hkind] at hl
      exact hl hk
    · rintro rfl
      exact hl rfl
  · rw [hkept, h.mem_links_iff ho hl]
    obtain ⟨kind, tail, head⟩ := l
    by_cases hkind : kind = .contains
    · subst hkind
      cases (Link.origin_contains tail head).symm.trans hl
      simp [Object.mem_links_contains, eq_comm]
    · simp [Object.mem_links_of_ne hkind, hkind]
  · show (m.links.filter _ ++ [_]).Nodup
    refine List.nodup_append'.2 ⟨h.nodup.sublist List.filter_sublist, by simp, fun l hl hl' => ?_⟩
    simp only [List.mem_filter, decide_eq_true_eq, List.mem_singleton] at hl hl'
    subst hl'
    exact hl.2 ⟨rfl, rfl⟩

/-- Objects go, and nothing that stays calls for a link to them. -/
theorem cleared (h : m.LinksExact) {ks : List Key} (hlive : ∀ k ∈ ks, m.contains k = true)
    (hnodup : ks.Nodup) (hstay : ∀ k ∉ ks, ∀ l ∈ m.linksOf k, l.tail ∉ ks ∧ l.head ∉ ks) :
    (m.cleared ks).LinksExact where
  mem_links l := by
    rw [links_cleared hlive hnodup, List.mem_filter, decide_eq_true_eq, h.mem_links, linksOf,
      linksOf, get?_cleared]
    by_cases hk : l.origin ∈ ks
    · have horigin : ¬ (l.tail ∉ ks ∧ l.head ∉ ks) := by
        rintro ⟨ht, hh⟩
        rcases l.origin_eq with he | he <;> rw [he] at hk
        · exact hh hk
        · exact ht hk
      simp [hk, horigin]
    · rw [if_neg hk]
      exact and_iff_left_of_imp (hstay _ hk l)
  nodup := by
    rw [links_cleared hlive hnodup]
    exact h.nodup.sublist List.filter_sublist

/-! ## Neighbours -/

theorem mem_outgoing {kind : LinkKind} {c : Key} (hk : m.contains k = true) :
    c ∈ m.outgoing kind k ↔ ⟨kind, k, c⟩ ∈ m.links := by
  rw [outgoing, if_pos hk, List.mem_map]
  constructor
  · rintro ⟨⟨kind', tail, head⟩, hl, rfl⟩
    obtain ⟨hl, hkind, htail⟩ : _ ∧ kind' = kind ∧ tail = k := by simpa using hl
    exact hkind ▸ htail ▸ hl
  · exact fun hl => ⟨_, List.mem_filter.2 ⟨hl, by simp⟩, rfl⟩

theorem mem_incoming {kind : LinkKind} {c : Key} (hk : m.contains k = true) :
    c ∈ m.incoming kind k ↔ ⟨kind, c, k⟩ ∈ m.links := by
  rw [incoming, if_pos hk, List.mem_map]
  constructor
  · rintro ⟨⟨kind', tail, head⟩, hl, rfl⟩
    obtain ⟨hl, hkind, hhead⟩ : _ ∧ kind' = kind ∧ head = k := by simpa using hl
    exact hkind ▸ hhead ▸ hl
  · exact fun hl => ⟨_, List.mem_filter.2 ⟨hl, by simp⟩, rfl⟩

theorem nodup_outgoing (h : m.LinksExact) (kind : LinkKind) (k : Key) :
    (m.outgoing kind k).Nodup := by
  unfold outgoing
  split
  · refine List.Nodup.map_on ?_ (h.nodup.sublist List.filter_sublist)
    rintro ⟨_, _, a⟩ ha ⟨_, _, b⟩ hb rfl
    simp only [List.mem_filter, decide_eq_true_eq] at ha hb
    obtain ⟨-, rfl, rfl⟩ := ha
    obtain ⟨-, rfl, rfl⟩ := hb
    rfl
  · exact List.nodup_nil

theorem nodup_incoming (h : m.LinksExact) (kind : LinkKind) (k : Key) :
    (m.incoming kind k).Nodup := by
  unfold incoming
  split
  · refine List.Nodup.map_on ?_ (h.nodup.sublist List.filter_sublist)
    rintro ⟨_, a, _⟩ ha ⟨_, b, _⟩ hb rfl
    simp only [List.mem_filter, decide_eq_true_eq] at ha hb
    obtain ⟨-, rfl, rfl⟩ := ha
    obtain ⟨-, rfl, rfl⟩ := hb
    rfl
  · exact List.nodup_nil

theorem eq_toList {α : Type} {xs : List α} {x? : Option α} (hxs : xs.Nodup)
    (h : ∀ a, a ∈ xs ↔ x? = some a) : xs = x?.toList := by
  have hperm : xs.Perm x?.toList := by
    refine (List.perm_ext_iff_of_nodup hxs ?_).2 fun a => by rw [h, Option.mem_toList]
    cases x? <;> simp
  cases x? with
  | none => exact List.perm_nil.1 hperm
  | some a => exact List.perm_singleton.1 hperm

/-- The one link from an owner to an object is from the owner that the object names. -/
theorem incoming_contains (h : m.LinksExact) (hk : m.contains k = true) :
    m.incoming .contains k = (m.owner? k).toList :=
  eq_toList (h.nodup_incoming _ _) fun _ => (mem_incoming hk).trans h.contains_iff

theorem mem_outgoing_contains (h : m.LinksExact) {c : Key} (hk : m.contains k = true) :
    c ∈ m.outgoing .contains k ↔ m.owner? c = some k :=
  (mem_outgoing hk).trans h.contains_iff

/-- The links from an object to what it refers to are those that its fields call for. -/
theorem outgoing_eq (h : m.LinksExact) (hk : m.contains k = true) {kind : LinkKind}
    (hkind : kind ≠ .contains) : m.outgoing kind k = (m.end? kind k).toList :=
  eq_toList (h.nodup_outgoing _ _) fun _ => (mem_outgoing hk).trans (h.refers_iff hkind)

theorem mem_incoming_of_ne (h : m.LinksExact) {c : Key} (hk : m.contains k = true)
    {kind : LinkKind} (hkind : kind ≠ .contains) :
    c ∈ m.incoming kind k ↔ m.end? kind c = some k :=
  (mem_incoming hk).trans (h.refers_iff hkind)

end LinksExact
end Model

/-- An object calls for at most one link of a kind to what it refers to. -/
theorem Object.filter_links (o : Object) (k : Key) {kind : LinkKind} (hkind : kind ≠ .contains) :
    (o.links k).filter (·.kind = kind) = ((o.body.end? kind).map (⟨kind, k, ·⟩)).toList := by
  refine Model.LinksExact.eq_toList ((o.nodup_links k).filter _) fun ⟨kind', tail, head⟩ => ?_
  rw [List.mem_filter, Option.map_eq_some_iff]
  by_cases hsame : kind' = kind
  · subst hsame
    simp [mem_links_of_ne hkind, and_comm, eq_comm]
  · simp [hsame, Ne.symm hsame]

end ModelLabels
