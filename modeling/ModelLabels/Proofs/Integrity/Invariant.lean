import ModelLabels.Model.Removal
import ModelLabels.Proofs.Integrity.Identifiers
import ModelLabels.Proofs.Integrity.Links
import ModelLabels.Proofs.Integrity.Ownership
/-! # The invariant of models

What holds of every model between operations, in one place.

* `Model.Consistent`: what does not concern the top-level folders; `Model.Sound`: all of it.
* `Fits.exists_owner`, `Holds.owner_role`: what has an owner, and what may be one.
* `Consistent.congr`, `updated`, `inserted`, `moved`: consistency after a change.
-/

namespace ModelLabels.Model
set_option autoImplicit false

variable {m n : Model} {k p : Key} {o : Object}

/-- All that is drawn is drawn on a view. -/
def DrawnOnViews (m : Model) : Prop :=
  ∀ ⦃k r v⦄, m.role? k = some r → r.drawnOn? = some v → m.role? v = some .view

/-- Slots, identifiers, links and owners are in order, every object is where it belongs, and all that
is drawn is drawn on a view. -/
structure Consistent (m : Model) : Prop where
  slots : m.objects.Sound
  ids : m.IdsExact
  links : m.LinksExact
  rooted : m.Rooted
  fits : ∀ {k o}, m.get? k = some o → m.Fits o
  drawn : m.DrawnOnViews

/-- The top-level folders are the objects without an owner, each of its own type. -/
structure TopLevelExact (m : Model) : Prop where
  mem_iff : ∀ k, k ∈ m.topLevelKeys ↔ m.contains k = true ∧ m.owner? k = none
  role : ∀ {t k}, (t, k) ∈ m.topLevel → m.role? k = some (.folder t t)
  nodup : m.topLevelKeys.Nodup

/-- A consistent model with its top-level folders. -/
structure Sound (m : Model) : Prop extends m.Consistent where
  top : m.TopLevelExact

/-! ## What is there -/

theorem mem_references_of_end? {kind : LinkKind} {x : Key} (h : o.body.end? kind = some x) :
    x ∈ o.role.references := by
  obtain ⟨id, owner, body⟩ := o
  cases body with
  | folder f => cases kind <;> cases h
  | view v => cases kind <;> cases h
  | concept c =>
    cases hends : c.kind.ends? with
    | none => cases kind <;> simp [Body.end?, hends] at h
    | some ends => cases kind <;> simp_all [Body.end?, Object.role, Role.references]
  | diagramObject d =>
    cases kind <;> simp_all [Body.end?, Object.role, Role.references, Shown.subject?_outline]
  | connection c =>
    cases kind <;> simp_all [Body.end?, Object.role, Role.references]

/-- Only folders can do without an owner. -/
theorem Fits.exists_owner (h : m.Fits o) (hr : ∀ t r, o.role ≠ .folder t r) :
    ∃ p, o.owner = some p ∧ m.Holds p o.role := by
  obtain ⟨-, hown⟩ := h
  cases hp : o.owner with
  | none =>
    rw [hp] at hown
    obtain ⟨t, ht, -⟩ := hown
    exact absurd ht (hr t t)
  | some p =>
    rw [hp] at hown
    exact ⟨p, rfl, hown.1⟩

/-- The objects without an owner are the top-level folders. -/
theorem Fits.isTopLevel_iff (h : m.Fits o) : o.isTopLevel = true ↔ o.owner = none := by
  obtain ⟨-, hown⟩ := h
  obtain ⟨id, owner, body⟩ := o
  cases owner with
  | some p => cases body <;> simp [Object.isTopLevel]
  | none =>
    obtain ⟨t, ht, -⟩ := hown
    cases body with
    | folder f => simp [Object.isTopLevel]
    | _ => cases ht

theorem Fits.withOwner (h : m.Fits o) (hown : o.owner ≠ none) (hc : o.role.isConnection = false)
    (hp : m.Holds p o.role) : m.Fits { o with owner := some p } := by
  obtain ⟨hres, hold⟩ := h
  obtain ⟨q, hq⟩ := Option.ne_none_iff_exists'.1 hown
  rw [hq] at hold
  unfold Fits
  rw [Object.role_withOwner hc]
  exact ⟨hres, hp, hold.2⟩

/-- What may hold an object is there and is not a connection. -/
theorem Holds.owner_role {r : Role} (h : m.Holds p r) (hd : m.DrawnOnViews) :
    ∃ q, m.role? p = some q ∧ q.isConnection = false := by
  cases r with
  | folder _ _ =>
    obtain ⟨t, ht⟩ := h
    exact ⟨_, ht, rfl⟩
  | concept _ =>
    obtain ⟨t, ht⟩ := h
    exact ⟨_, ht, rfl⟩
  | view =>
    obtain ⟨t, ht⟩ := h
    exact ⟨_, ht, rfl⟩
  | diagramObject _ _ =>
    rcases h with ⟨hv, -⟩ | ⟨s, hs⟩
    · exact ⟨_, hv, rfl⟩
    · exact ⟨_, hs, rfl⟩
  | connection _ source _ _ =>
    obtain ⟨-, hends⟩ := h
    obtain ⟨q, hq, hqd⟩ := hends source List.mem_cons_self
    exact ⟨_, hd hq hqd, rfl⟩

theorem Holds.drawn {r : Role} {v : Key} (h : m.Holds p r) (hv : r.drawnOn? = some v)
    (hd : m.DrawnOnViews) : m.role? v = some .view := by
  cases r with
  | folder _ _ => cases hv
  | concept _ => cases hv
  | view => cases hv
  | diagramObject s w =>
    cases hv
    rcases h with ⟨hp, rfl⟩ | ⟨s, hs⟩
    · exact hp
    · exact hd hs rfl
  | connection _ source _ _ =>
    obtain ⟨rfl, hends⟩ := h
    cases hv
    obtain ⟨q, hq, hqd⟩ := hends source List.mem_cons_self
    exact hd hq hqd

theorem Fits.contains_of_mentions (h : m.Fits o) (hd : m.DrawnOnViews) (hk : o.Mentions k) :
    m.contains k = true := by
  rcases hk with hk | hk | hk
  · obtain ⟨-, hown⟩ := h
    rw [hk] at hown
    obtain ⟨r, hr, -⟩ := hown.1.owner_role hd
    exact contains_of_role? hr
  · have hdrawn : o.role.drawnOn? = some k := o.drawnOn?_role.trans hk
    obtain ⟨p, -, hp⟩ := h.exists_owner fun t r hr => by simp [hr, Role.drawnOn?] at hdrawn
    exact contains_of_role? (hp.drawn hdrawn hd)
  · have hres := h.1
    cases hrole : o.role with
    | folder t r => simp [hrole, Role.references] at hk
    | view => simp [hrole, Role.references] at hk
    | concept kind =>
      rw [hrole] at hk hres
      obtain ⟨c, hc⟩ := hres k hk
      exact contains_of_role? hc
    | diagramObject s v =>
      rw [hrole] at hk hres
      rcases Shown.subject?_eq_some.1 (Option.mem_toList.1 hk) with rfl | rfl
      · obtain ⟨t, ht⟩ := hres
        exact contains_of_role? ht
      · exact contains_of_role? hres
    | connection relationship source target v =>
      obtain ⟨p, -, hp⟩ := h.exists_owner fun t r hr => by simp [hrole] at hr
      rw [hrole] at hk hp hres
      obtain ⟨-, hends⟩ := hp
      have hmem : k ∈ [source, target] ∨ relationship = some k := by
        simpa [Role.references, or_assoc] using hk
      rcases hmem with hmem | rfl
      · obtain ⟨q, hq, -⟩ := hends k hmem
        exact contains_of_role? hq
      · obtain ⟨t, a, b, hr⟩ := hres
        exact contains_of_role? hr

namespace Consistent

theorem holds (h : m.Consistent) (ho : m.get? k = some o) (hown : o.owner = some p) :
    m.Holds p o.role := by
  obtain ⟨-, hf⟩ := h.fits ho
  rw [hown] at hf
  exact hf.1

/-- What is not a folder has an owner, which may hold it. -/
theorem exists_owner (h : m.Consistent) {r : Role} (hk : m.role? k = some r)
    (hr : ∀ t s, r ≠ .folder t s) : ∃ p, m.owner? k = some p ∧ m.Holds p r := by
  obtain ⟨o, ho, rfl⟩ := get?_of_role? hk
  rw [owner?_of_get? ho]
  exact (h.fits ho).exists_owner hr

theorem owner_role (h : m.Consistent) (ho : m.owner? k = some p) :
    ∃ r, m.role? p = some r ∧ r.isConnection = false := by
  obtain ⟨o, hk, hown⟩ := Option.bind_eq_some_iff.1 ho
  exact (h.holds hk hown).owner_role h.drawn

theorem contains_owner (h : m.Consistent) (ho : m.owner? k = some p) : m.contains p = true := by
  obtain ⟨r, hr, -⟩ := h.owner_role ho
  exact contains_of_role? hr

/-- A link has two ends that are there. -/
theorem contains_ends (h : m.Consistent) {l : Link} (hl : l ∈ m.links) :
    m.contains l.tail = true ∧ m.contains l.head = true := by
  obtain ⟨kind, tail, head⟩ := l
  by_cases hkind : kind = .contains
  · subst hkind
    have howner := h.links.contains_iff.1 hl
    exact ⟨h.contains_owner howner, contains_of_owner? howner⟩
  · obtain ⟨o, ho, hend⟩ := Option.bind_eq_some_iff.1 ((h.links.refers_iff hkind).1 hl)
    refine ⟨contains_of_get? ho, (h.fits ho).contains_of_mentions h.drawn ?_⟩
    exact .inr (.inr (mem_references_of_end? hend))

theorem not_isConnection_owner (h : m.Consistent) (ho : m.owner? k = some p) :
    m.isConnection p = false := by
  obtain ⟨r, hr, hc⟩ := h.owner_role ho
  rw [Bool.eq_false_iff, ne_eq, isConnection_iff_role?]
  rintro ⟨q, hq, hqc⟩
  rw [hr] at hq
  cases hq
  rw [hc] at hqc
  cases hqc

/-! ## Consistency after a change -/

theorem congr (h : m.Consistent) (hobjects : n.objects = m.objects) (hlinks : n.links = m.links)
    (hid : n.id = m.id) (hused : n.usedIds = m.usedIds) : n.Consistent := by
  have hget (l : Key) : n.get? l = m.get? l := by rw [get?, hobjects, get?]
  have hrole (l : Key) : n.role? l = m.role? l := by rw [role?, hget, role?]
  constructor
  · exact hobjects ▸ h.slots
  · exact h.ids.congr hid hused fun l => by rw [idOf?, hget, idOf?]
  · exact h.links.congr hlinks fun l => by rw [linksOf, hget, linksOf]
  · exact h.rooted.congr (fun l => contains_congr (hget l)) fun l => owner?_congr (hget l)
  · intro l o ho
    rw [hget] at ho
    exact (h.fits ho).mono fun x _ q hq => (hrole x).trans hq
  · intro l r v hr hd
    rw [hrole] at hr ⊢
    exact h.drawn hr hd

theorem changed (h : m.Consistent) {f : Object → Object} (ho : m.get? k = some o)
    (hobjects : n.objects = m.objects.update k f) (hrole : (f o).role = o.role)
    (hfit : m.Fits (f o)) (hids : n.IdsExact) (hlinks : n.LinksExact) (hrooted : n.Rooted) :
    n.Consistent := by
  have hget := get?_of_objects_eq ho hobjects
  have hroles (l : Key) : n.role? l = m.role? l := by
    by_cases hl : l = k
    · subst hl
      rw [role?_of_get? ho, role?_of_get? ((hget l).trans (if_pos rfl)), hrole]
    · rw [role?, hget, if_neg hl, role?]
  refine ⟨hobjects ▸ h.slots.update k f, hids, hlinks, hrooted, ?_, ?_⟩
  · intro l o' ho'
    rw [hget] at ho'
    split at ho'
    · cases ho'
      exact hfit.mono fun x _ q hq => (hroles x).trans hq
    · exact (h.fits ho').mono fun x _ q hq => (hroles x).trans hq
  · intro l r v hr hd
    rw [hroles] at hr ⊢
    exact h.drawn hr hd

theorem updated (h : m.Consistent) {f : Object → Object} (ho : m.get? k = some o)
    (hobjects : n.objects = m.objects.update k f) (hown : (f o).owner = o.owner)
    (hrole : (f o).role = o.role) (hids : n.IdsExact) (hlinks : n.LinksExact) : n.Consistent :=
  h.changed ho hobjects hrole ((h.fits ho).congr hown hrole) hids hlinks
    (h.rooted.updated ho hown hobjects)

theorem folder_of_owner (h : m.Consistent) {t r : FolderType}
    (hk : m.role? k = some (.folder t r)) (hown : m.owner? k = some p) :
    ∃ t', m.role? p = some (.folder t' r) := by
  obtain ⟨o, ho, hrole⟩ := get?_of_role? hk
  have hholds := h.holds ho ((owner?_of_get? ho).symm.trans hown)
  rw [hrole] at hholds
  exact hholds

/-- All above a folder are folders with the same root type. -/
theorem folder_of_within (h : m.Consistent) {a : Key} {t r : FolderType} (hw : m.Within p a)
    (hp : m.role? p = some (.folder t r)) : ∃ t', m.role? a = some (.folder t' r) := by
  induction hw with
  | refl => exact ⟨t, hp⟩
  | tail _ hown ih =>
    obtain ⟨t', ht'⟩ := ih
    exact h.folder_of_owner ht' hown

/-- What may hold an object does not lie below it, where the cases that could be otherwise have been
looked into: concepts and views go into folders, and all above a folder are folders. -/
theorem not_within_of_holds (h : m.Consistent) (ho : m.get? k = some o) (hp : m.Holds p o.role)
    (hc : o.role.isConnection = false)
    (hw : (∃ t r, o.role = .folder t r) ∨ (∃ s v, o.role = .diagramObject s v) →
      m.isWithin p k = false) : ¬ m.Within p k := by
  intro hwithin
  obtain ⟨q, hq, -⟩ := hp.owner_role h.drawn
  obtain ⟨d, hd⟩ := h.rooted p (contains_of_role? hq)
  have hyes : m.isWithin p k = true := hd.isWithin_iff.2 hwithin
  have hfolder {t r : FolderType} (ht : m.role? p = some (.folder t r)) :
      ∃ t r, o.role = .folder t r := by
    obtain ⟨t', hk⟩ := h.folder_of_within hwithin ht
    rw [role?_of_get? ho] at hk
    exact ⟨t', r, Option.some.inj hk⟩
  cases hr : o.role with
  | folder t r => simp [hw (.inl ⟨t, r, hr⟩)] at hyes
  | diagramObject s v => simp [hw (.inr ⟨s, v, hr⟩)] at hyes
  | connection _ _ _ _ => simp [hr, Role.isConnection] at hc
  | concept kind =>
    rw [hr] at hp
    obtain ⟨t, ht⟩ := hp
    obtain ⟨_, _, hk⟩ := hfolder ht
    simp [hr] at hk
  | view =>
    rw [hr] at hp
    obtain ⟨t, ht⟩ := hp
    obtain ⟨_, _, hk⟩ := hfolder ht
    simp [hr] at hk

theorem moved (h : m.Consistent) (ho : m.get? k = some o) (htop : o.isTopLevel = false)
    (hp : m.Holds p o.role) (hc : o.role.isConnection = false)
    (hw : (∃ t r, o.role = .folder t r) ∨ (∃ s v, o.role = .diagramObject s v) →
      m.isWithin p k = false) : (m.moved k p).Consistent := by
  obtain ⟨q, hq, -⟩ := hp.owner_role h.drawn
  have hnot : ¬ m.Within p k := h.not_within_of_holds ho hp hc hw
  have hown : o.owner ≠ none := fun hnone => by
    rw [(h.fits ho).isTopLevel_iff.2 hnone] at htop
    cases htop
  let f : Object → Object := fun o => { o with owner := some p }
  exact h.changed (f := f) ho rfl (Object.role_withOwner hc _) ((h.fits ho).withOwner hown hc hp)
    (h.ids.updated (f := f) ho rfl rfl rfl rfl) (h.links.moved ho p)
    (h.rooted.moved ho (contains_of_role? hq) hnot)

theorem inserted (h : m.Consistent) {owner : Option Key} {b : Body}
    (hfit : ∀ id, m.Fits ⟨id, owner, b⟩) : (m.inserted owner b).Consistent := by
  have hget := get?_inserted h.slots owner b
  have hnew : (m.inserted owner b).role? m.nextKey = some (Object.mk m.freshId.1 owner b).role :=
    role?_of_get? ((hget _).trans (if_pos rfl))
  have hold : ∀ l q, m.role? l = some q → (m.inserted owner b).role? l = some q := by
    intro l q hq
    have hne : l ≠ m.nextKey := by
      rintro rfl
      rw [role?, get?_nextKey h.slots] at hq
      cases hq
    rw [role?, hget, if_neg hne]
    exact hq
  have hf := hfit m.freshId.1
  refine ⟨h.slots.insert _ _, h.ids.inserted h.slots owner b, h.links.inserted h.slots owner b,
    h.rooted.inserted h.slots ?_, ?_, ?_⟩
  · intro p hp
    obtain ⟨-, hown⟩ := hf
    simp only [hp] at hown
    obtain ⟨q, hq, -⟩ := hown.1.owner_role h.drawn
    exact contains_of_role? hq
  · intro l o ho
    rw [hget] at ho
    split at ho
    · cases ho
      exact hf.mono fun x _ => hold x
    · exact (h.fits ho).mono fun x _ => hold x
  · intro l r v hr hd
    by_cases hl : l = m.nextKey
    · subst hl
      rw [hnew] at hr
      cases hr
      obtain ⟨p, -, hp⟩ := hf.exists_owner fun t r hr => by simp [hr, Role.drawnOn?] at hd
      exact hold v _ (hp.drawn hd h.drawn)
    · rw [role?, hget, if_neg hl] at hr
      exact hold v _ (h.drawn hr hd)

end Consistent

end ModelLabels.Model
