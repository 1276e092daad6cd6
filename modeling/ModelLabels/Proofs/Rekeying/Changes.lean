import Mathlib.Logic.Equiv.Basic
import ModelLabels.Proofs.KeyHistory
import ModelLabels.Proofs.Rekeying.Checks
/-! # Changes under other keys

A change that is made to a model and to the model under other keys leaves models that differ in keys
again.  A new object may get different slots in the two; the two new keys are then matched as well.

* `Rekeyed.update`, `link`, `unlinkFrom`, …: the steps of changes.
* `Rekeyed.cleared`: removals, in any order.
* `Rekeyed.congr`: only the keys of objects that are there matter.
* `Rekeyed.added`: a new object.
-/

namespace ModelLabels
set_option autoImplicit false

theorem Store.get?_of_mem {α : Type} {s : Store α} (hs : s.keys.Nodup) {e : Key × α}
    (he : e ∈ s.entries) : s.get? e.1 = some e.2 := by
  have hsome : (s.entries.find? (·.1 = e.1)).isSome = true :=
    List.find?_isSome.2 ⟨e, he, decide_eq_true rfl⟩
  obtain ⟨f, hf⟩ := Option.isSome_iff_exists.1 hsome
  have hkey : f.1 = e.1 := by simpa using List.find?_some hf
  have hsame : f = e := List.inj_on_of_nodup_map hs (List.mem_of_find?_eq_some hf) he hkey
  rw [get?, hf, hsame, Option.map_some]

theorem Store.entries_erase {α : Type} (s : Store α) (k : Key) :
    (s.erase k).entries = s.entries.filter (·.1 ≠ k) := by
  unfold Store.erase
  split
  · rfl
  · rename_i hk
    refine (List.filter_eq_self.2 fun e he => ?_).symm
    rw [contains_iff] at hk
    exact decide_eq_true fun heq => hk (heq ▸ List.mem_map_of_mem he)

theorem Body.end?_mapKeys {σ : Key → Key} (kind : LinkKind) (b : Body) :
    (b.mapKeys σ).end? kind = (b.end? kind).map σ := by
  cases b with
  | concept c =>
    obtain ⟨d, k⟩ := c
    cases kind <;> cases k <;> rfl
  | connection c =>
    obtain ⟨d, relationship, source, target, isConnected⟩ := c
    cases kind <;> cases isConnected <;> rfl
  | diagramObject d =>
    cases kind with
    | shows => exact d.shows.subject?_mapKeys
    | _ => rfl
  | _ => cases kind <;> rfl

theorem Object.links_mapKeys {σ : Key → Key} (o : Object) (k : Key) :
    (o.mapKeys σ).links (σ k) = (o.links k).map (Link.mapKeys σ) := by
  have hend (kind : LinkKind) (x? : Option Key) : (x?.map σ).toList.map (Link.mk kind (σ k)) =
      (x?.toList.map (Link.mk kind k)).map (Link.mapKeys σ) := by
    cases x? <;> rfl
  have howner : (o.owner.map σ).toList.map (fun p => Link.mk .contains p (σ k)) =
      (o.owner.toList.map (fun p => Link.mk .contains p k)).map (Link.mapKeys σ) := by
    cases o.owner <;> rfl
  simp only [Object.links, Body.links, mapKeys, Body.end?_mapKeys, hend, howner, List.map_append,
    List.map_flatMap]

namespace Model

variable {σ τ : Key → Key} {m n : Model} {o : Object} {k p : Key} {b : Body}

namespace Rekeyed

/-! ## Steps of changes -/

section Steps
variable (h : m.Rekeyed σ n)
include h

theorem update {f g : Object → Object} (hfg : ∀ o, g (o.mapKeys σ) = (f o).mapKeys σ) (k : Key) :
    (m.update k f).Rekeyed σ (n.update (σ k) g) where
  __ := h
  entries := by
    show n.objects.entries.map _ = (m.objects.entries.map _).map _
    rw [h.entries, List.map_map, List.map_map]
    refine List.map_congr_left fun e _ => ?_
    simp only [Function.comp_apply, Prod.map_fst, h.eq_iff]
    split
    · exact congrArg (Prod.mk (σ e.1)) (hfg e.2)
    · rfl
  rest := congrArg (fun q : Model => { q with objects := (m.update k f).objects }) h.rest

theorem link (kind : LinkKind) (tail head : Key) :
    (m.link kind tail head).Rekeyed σ (n.link kind (σ tail) (σ head)) where
  __ := h
  links := by
    show n.links ++ _ = (m.links ++ _).map _
    rw [h.links, List.map_append]
    rfl
  rest := congrArg (Model.link kind tail head) h.rest

theorem unlinkFrom (kind : LinkKind) (tail : Key) :
    (m.unlinkFrom kind tail).Rekeyed σ (n.unlinkFrom kind (σ tail)) where
  __ := h
  links := h.filter_links fun _ => decide_eq_decide.2
    (not_congr (and_congr_right fun _ => h.eq_iff))
  rest := congrArg (Model.unlinkFrom kind tail) h.rest

theorem unlinkTo (kind : LinkKind) (head : Key) :
    (m.unlinkTo kind head).Rekeyed σ (n.unlinkTo kind (σ head)) where
  __ := h
  links := h.filter_links fun _ => decide_eq_decide.2
    (not_congr (and_congr_right fun _ => h.eq_iff))
  rest := congrArg (Model.unlinkTo kind head) h.rest

theorem releaseId (id : String) : (m.releaseId id).Rekeyed σ (n.releaseId id) where
  __ := h
  rest := congrArg (Model.releaseId id) h.rest

theorem reserveId (id : String) : (m.reserveId id).Rekeyed σ (n.reserveId id) where
  __ := h
  rest := congrArg (Model.reserveId id) h.rest

theorem bump : m.bump.Rekeyed σ n.bump where
  __ := h
  rest := congrArg Model.bump h.rest

theorem described (f : Description → Description) :
    Rekeyed σ { m with toDescription := f m.toDescription }
      { n with toDescription := f n.toDescription } where
  __ := h
  rest := congrArg (fun q : Model => { q with toDescription := f q.toDescription }) h.rest

/-! ## Changes of objects that are there -/

theorem withConnected (k : Key) (isConnected : Bool) :
    (m.update k fun o => { o with body := o.body.withConnected isConnected }).Rekeyed σ
      (n.update (σ k) fun o => { o with body := o.body.withConnected isConnected }) :=
  h.update (fun o => congrArg (Object.mk o.id (o.owner.map σ))
    (o.body.withConnected_mapKeys isConnected)) k

theorem detached (k : Key) : (m.detached k).Rekeyed σ (n.detached (σ k)) :=
  ((h.unlinkFrom .source k).unlinkFrom .target k).withConnected k false

theorem reattached (k : Key) (c : Connection) :
    (m.reattached k c).Rekeyed σ (n.reattached (σ k) (c.mapKeys σ)) :=
  ((h.link .source k c.source).link .target k c.target).withConnected k true

theorem renamed (k : Key) (old id : String) :
    (m.renamed k old id).Rekeyed σ (n.renamed (σ k) old id) :=
  (((h.releaseId old).reserveId id).update (f := fun o => { o with id }) (fun _ => rfl) k).bump

theorem moved (k parent : Key) : (m.moved k parent).Rekeyed σ (n.moved (σ k) (σ parent)) :=
  (((h.unlinkTo .contains k).update (f := fun o => { o with owner := some parent })
    (fun _ => rfl) k).link .contains parent k).bump

theorem revised (k : Key) (b : Body) :
    (m.update k fun o => { o with body := b }).Rekeyed σ
      (n.update (σ k) fun o => { o with body := b.mapKeys σ }) :=
  h.update (f := fun o => { o with body := b }) (fun _ => rfl) k

end Steps

/-! ## Removals -/

end Rekeyed

theorem erase_of_none (hk : m.get? k = none) : m.erase k = m := by rw [erase, hk]

theorem erase_of_get? (ho : m.get? k = some o) : m.erase k =
    { m.releaseId o.id with
      objects := m.objects.erase k
      links := m.links.filter fun l => l.tail ≠ k ∧ l.head ≠ k } := by
  rw [erase, ho]

namespace Rekeyed

theorem erase (h : m.Rekeyed σ n) (k : Key) : (m.erase k).Rekeyed σ (n.erase (σ k)) := by
  cases ho : m.get? k with
  | none =>
    have hn : n.get? (σ k) = none := by rw [h.get?, ho, Option.map_none]
    rw [erase_of_none ho, erase_of_none hn]
    exact h
  | some o =>
    have hn : n.get? (σ k) = some (o.mapKeys σ) := by rw [h.get?, ho, Option.map_some]
    rw [erase_of_get? ho, erase_of_get? hn]
    exact
      { h with
        entries := by
          show (n.objects.erase (σ k)).entries = (m.objects.erase k).entries.map _
          rw [Store.entries_erase, Store.entries_erase, h.entries, List.filter_map]
          refine congrArg (List.map _) (List.filter_congr fun e _ => ?_)
          exact decide_eq_decide.2 (not_congr h.eq_iff)
        links := h.filter_links fun _ => decide_eq_decide.2
          (and_congr (not_congr h.eq_iff) (not_congr h.eq_iff))
        rest := congrArg (fun q : Model =>
          { q.releaseId o.id with
            objects := m.objects.erase k
            links := m.links.filter fun l => l.tail ≠ k ∧ l.head ≠ k }) h.rest }

theorem foldl_erase (h : m.Rekeyed σ n) (ks : List Key) :
    (ks.foldl Model.erase m).Rekeyed σ ((ks.map σ).foldl Model.erase n) := by
  induction ks generalizing m n with
  | nil => exact h
  | cons k ks ih => exact ih (h.erase k)

/-- Two models that differ in which slots are free. -/
theorem of_eq (hentries : n.objects.entries = m.objects.entries)
    (hrest : { n with objects := m.objects } = m) : m.Rekeyed (fun k => k) n :=
  have hlinks : n.links = m.links := (congrArg Model.links hrest :)
  have htop : n.topLevel = m.topLevel := (congrArg Model.topLevel hrest :)
  { refl m with
    entries := hentries.trans (refl m).entries
    links := hlinks.trans (refl m).links
    topLevel := htop.trans (refl m).topLevel
    rest := congrArg (fun q : Model =>
      { q with links := m.links, topLevel := m.topLevel }) hrest }

/-- Two objects go in one order or in the other. -/
theorem erase_comm (m : Model) (k l : Key) :
    ((m.erase k).erase l).Rekeyed (fun k => k) ((m.erase l).erase k) := by
  by_cases hkl : k = l
  · rw [hkl]
    exact .refl _
  have hl : (m.erase k).get? l = m.get? l := (m.get?_erase k l).trans (if_neg (Ne.symm hkl))
  have hk : (m.erase l).get? k = m.get? k := (m.get?_erase l k).trans (if_neg hkl)
  cases hm : m.get? k with
  | none =>
    rw [erase_of_none hm, erase_of_none (hk.trans hm)]
    exact .refl _
  | some o =>
    cases hm' : m.get? l with
    | none =>
      rw [erase_of_none hm', erase_of_none (hl.trans hm')]
      exact .refl _
    | some o' =>
      rw [erase_of_get? (hl.trans hm'), erase_of_get? (hk.trans hm), erase_of_get? hm,
        erase_of_get? hm']
      refine .of_eq ?_ ?_
      · simp only [Store.entries_erase]
        exact List.filter_comm _ _ _
      · congr 1
        · exact List.filter_comm _ _ _
        · exact List.filter_comm _ _ _

theorem foldl_erase_perm {ks ls : List Key} (hks : ks.Perm ls) (m : Model) :
    (ks.foldl Model.erase m).Rekeyed (fun k => k) (ls.foldl Model.erase m) := by
  induction hks generalizing m with
  | nil => exact .refl m
  | cons k _ ih => exact ih (m.erase k)
  | swap k l ks =>
    have hfold := (erase_comm m l k).foldl_erase ks
    rw [List.map_id'] at hfold
    exact hfold
  | trans _ _ ih ih' => exact (ih m).trans (ih' m)

/-- The same objects go from both models, in whatever order. -/
theorem cleared (h : m.Rekeyed σ n) {ks ls : List Key} (hls : ls.Perm (ks.map σ)) :
    (m.cleared ks).Rekeyed σ (n.cleared ls) :=
  ((h.foldl_erase ks).trans (foldl_erase_perm hls.symm n)).bump

/-! ## The keys that matter -/

/-- Only the keys of objects that are there matter. -/
theorem congr (h : m.Rekeyed σ n) (hm : m.Sound) (hinjective : Function.Injective τ)
    (hserial : ∀ k, (τ k).serial = k.serial) (hτ : ∀ k, m.contains k = true → τ k = σ k) :
    m.Rekeyed τ n where
  injective := hinjective
  serial := hserial
  entries := by
    refine h.entries.trans (List.map_congr_left fun e he => ?_)
    have ho : m.get? e.1 = some e.2 := Store.get?_of_mem hm.slots.keys_nodup he
    have hobject : e.2.mapKeys τ = e.2.mapKeys σ := Object.mapKeys_congr fun k hk =>
      hτ k ((hm.fits ho).contains_of_mentions hm.drawn hk)
    exact Prod.ext (hτ e.1 (contains_of_get? ho)).symm hobject.symm
  links := by
    refine h.links.trans (List.map_congr_left fun l hl => ?_)
    obtain ⟨htail, hhead⟩ := hm.contains_ends hl
    rw [Link.mapKeys, Link.mapKeys, hτ _ htail, hτ _ hhead]
  topLevel := by
    refine h.topLevel.trans (List.map_congr_left fun e he => ?_)
    have hlive := ((hm.top.mem_iff e.2).1 (List.mem_map_of_mem he)).1
    exact Prod.ext rfl (hτ e.2 hlive).symm
  rest := h.rest

/-! ## New objects -/

theorem freshId (h : m.Rekeyed σ n) : n.freshId.1 = m.freshId.1 :=
  (congrArg (fun q : Model => q.freshId.1) h.rest :)

theorem lastSerial (h : m.Rekeyed σ n) : n.lastSerial = m.lastSerial :=
  (congrArg Model.lastSerial h.rest :)

/-- A new object, where its two keys are matched already. -/
theorem inserted (h : m.Rekeyed σ n) (hkey : σ m.nextKey = n.nextKey) (owner : Option Key)
    (b : Body) :
    (m.inserted owner b).Rekeyed σ (n.inserted (owner.map σ) (b.mapKeys σ)) := by
  let o : Object := ⟨m.freshId.1, owner, b⟩
  have ho : (⟨n.freshId.1, owner.map σ, b.mapKeys σ⟩ : Object) = o.mapKeys σ := by
    rw [h.freshId]
    rfl
  have hlinks : (o.mapKeys σ).links n.nextKey = (o.links m.nextKey).map (Link.mapKeys σ) := by
    rw [← hkey, Object.links_mapKeys]
  unfold Model.inserted
  dsimp only
  rw [ho, hlinks]
  exact
    { h with
      entries := by
        show n.objects.entries ++ [(n.nextKey, _)] = (m.objects.entries ++ [_]).map _
        rw [h.entries, List.map_append, ← hkey]
        rfl
      links := by
        show n.links ++ _ = (m.links ++ _).map _
        rw [h.links, List.map_append]
      rest := by
        rw [List.length_map]
        exact congrArg (fun q : Model =>
          { q with
            objects := m.objects.insert (m.lastSerial + 1) o
            links := m.links ++ o.links m.nextKey
            usedIds := q.freshId.1 :: q.usedIds
            lastId := q.freshId.2.lastId
            lastSerial := q.lastSerial + 1 + (o.links m.nextKey).length }) h.rest }

/-- A new object.  Neither of its keys was in use, so they can be matched. -/
theorem added (h : m.Rekeyed σ n) (hm : m.Sound) (hnumbered : m.Numbered)
    (hfit : ∀ id, m.Fits ⟨id, some p, b⟩) :
    ∃ τ, (m.added p b).Rekeyed τ (n.added (σ p) (b.mapKeys σ)) ∧ τ m.nextKey = n.nextKey := by
  -- The key that was to stand for the new one changes places with the one that will.  Both have a
  -- serial number that no object has, so whatever is there keeps its key.
  let τ : Key → Key := fun k => Equiv.swap (σ m.nextKey) n.nextKey (σ k)
  have hnew : (σ m.nextKey).serial = m.lastSerial + 1 := h.serial m.nextKey
  have hnew' : n.nextKey.serial = m.lastSerial + 1 := congrArg (· + 1) h.lastSerial
  have hτ : ∀ k, m.contains k = true → τ k = σ k := by
    intro k hk
    have hle : (σ k).serial ≤ m.lastSerial := (h.serial k).trans_le (hnumbered k hk)
    refine Equiv.swap_apply_of_ne_of_ne (fun he => ?_) fun he => ?_
    · rw [he] at hle
      omega
    · rw [he] at hle
      omega
  have hserial : ∀ k, (τ k).serial = k.serial := by
    intro k
    show (Equiv.swap (σ m.nextKey) n.nextKey (σ k)).serial = _
    rw [Equiv.swap_apply_def, ← h.serial k]
    split
    · rename_i he
      rw [he]
      omega
    · split
      · rename_i he
        rw [he]
        omega
      · rfl
  have hrekeyed : m.Rekeyed τ n :=
    h.congr hm ((Equiv.swap _ _).injective.comp h.injective) hserial hτ
  have hkey : τ m.nextKey = n.nextKey := Equiv.swap_apply_left _ _
  have hlive : ∀ k, (⟨"", some p, b⟩ : Object).Mentions k → τ k = σ k := fun k hk =>
    hτ k ((hfit "").contains_of_mentions hm.drawn hk)
  obtain ⟨-, howner, hbody⟩ := Object.mk.inj (Object.mapKeys_congr hlive)
  refine ⟨τ, ?_, hkey⟩
  have hinserted := hrekeyed.inserted hkey (some p) b
  rw [hbody, howner] at hinserted
  exact hinserted.bump

end Rekeyed

end Model

end ModelLabels
