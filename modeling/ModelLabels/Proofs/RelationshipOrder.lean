import ModelLabels.Proofs.Addition
import ModelLabels.Proofs.Moving.Blocks
import ModelLabels.Proofs.TopLevelFolders
/-! # A new relationship comes last

All relationships lie below the top-level folder for relationships.  One that is added to the folder
itself is the last object below it on a walk, so it is listed after all others, and a route that follows
the first relationship of a type goes on to follow the same one.

* `Sound.walk_added`: the walk after something was added to a top-level folder.
* `Sound.relationships_added`: the relationships of a concept after one was added.
* `relatedEnd?_of_append`: a route that leads somewhere is not led astray by relationships that come
  after those there are.
* `Reachable.relationship_added_last`: the property.
-/

namespace ModelLabels
set_option autoImplicit false

open GraphIndex

namespace Model
variable {m n : Model} {p k c x : Key} {ks xs : List Key} {b : Body} {ix jx : GraphIndex}

/-! ## The walk -/

/-- The connections are held by views. -/
theorem Consistent.filter_isConnection_folder (h : m.Consistent) {t r : FolderType}
    (hp : m.role? p = some (.folder t r)) :
    (m.outgoing .contains p).filter m.isConnection = [] := by
  refine List.filter_eq_nil_iff.2 fun x hx hcon => ?_
  have hown := (h.links.mem_outgoing_contains (contains_of_role? hp)).1 hx
  obtain ⟨q, hq, hline⟩ := isConnection_iff_role?.1 hcon
  obtain ⟨o, ho, rfl⟩ := get?_of_role? hq
  have hholds := h.holds ho ((owner?_of_get? ho).symm.trans hown)
  cases hrole : o.role with
  | connection relationship source target view =>
    rw [hrole] at hholds
    obtain ⟨q, hq, hdrawn⟩ := hholds.2 source (by simp)
    rw [h.drawn hq hdrawn] at hp
    cases hp
  | _ => simp [hrole, Role.isConnection] at hline

theorem isConnection_added (h : m.objects.Sound) (hb : b.connection? = none) :
    (m.added p b).isConnection = m.isConnection := by
  funext x
  by_cases hx : x = m.nextKey
  · rw [hx, isConnection_added_self h, hb, isConnection, connection?, get?_nextKey h]
    rfl
  · rw [isConnection, connection?, get?_added_of_ne h p b hx, isConnection, connection?]

section Walk
variable (h : m.Sound) (hn : (m.added p b).Sound) (hb : b.connection? = none)
include h hn hb

/-- Where the owner of the new object is not met, nothing changes. -/
theorem Visits.added (hv : m.Visits ks xs) (hp : p ∉ xs) : (m.added p b).Visits ks xs := by
  refine hv.congr (isConnection_added h.slots hb) fun x hx => ?_
  have hxp : x ≠ p := fun hxp => hp (hxp ▸ hx)
  rw [outgoing_added h.toConsistent hn.toConsistent, if_neg hxp, List.append_nil]

/-- Below a folder, the new object is met last. -/
theorem Visits.added_folder {t r : FolderType} (hrole : m.role? p = some (.folder t r))
    (hv : m.Visits (m.children p) xs) (hp : p ∉ xs) :
    (m.added p b).Visits [p] (p :: (xs ++ [m.nextKey])) := by
  have hm := h.toConsistent
  have hnext : p ≠ m.nextKey := by
    rintro rfl
    simpa [not_contains_nextKey h.slots] using contains_of_role? hrole
  have hchildren : (m.added p b).children p = m.children p ++ [m.nextKey] := by
    rw [children_added hm hn.toConsistent, if_pos ⟨rfl, hb⟩]
  have hnone : (m.added p b).outgoing .contains m.nextKey = [] := by
    rw [outgoing_added hm hn.toConsistent, if_neg hnext.symm, outgoing,
      not_contains_nextKey h.slots]
    rfl
  have hnew : (m.added p b).Visits [m.nextKey] [m.nextKey] := by
    have hempty : (m.added p b).Visits ((m.added p b).children m.nextKey) [] := by
      rw [children, hnone]
      exact .nil
    have hone : (m.added p b).Visits [m.nextKey] _ := .cons hempty .nil
    rwa [hnone] at hone
  have hrole' : (m.added p b).role? p = some (.folder t r) := by
    rw [role?, get?_added_of_ne h.slots p b hnext]
    exact hrole
  have hbelow : (m.added p b).Visits ((m.added p b).children p) (xs ++ [m.nextKey]) := by
    rw [hchildren]
    exact (Visits.added h hn hb hv hp).append hnew
  have hself : (m.added p b).Visits [p] _ := .cons hbelow .nil
  rwa [hn.filter_isConnection_folder hrole', List.append_nil, List.append_nil] at hself

/-- What is added to a top-level folder comes, on a walk, after all that lies below the folder, and
before all else that came after the folder. -/
theorem Sound.walk_added (hp : p ∈ m.topLevelKeys) :
    ∃ before after, m.walk = before ++ after ∧
      (m.added p b).walk = before ++ m.nextKey :: after ∧ ∀ x ∈ after, ¬ m.Within x p := by
  have hdepth : m.Depth p 0 := h.depth_zero hp
  obtain ⟨t, hrole⟩ : ∃ t, m.role? p = some (.folder t t) := by
    obtain ⟨⟨t, p⟩, ht, rfl⟩ := List.mem_map.1 hp
    exact ⟨t, h.top.role ht⟩
  obtain ⟨ks, ls, hkeys⟩ := List.append_of_mem hp
  have hroots {xs : List Key} (hxs : ∀ k ∈ xs, k ∈ m.topLevelKeys) :
      m.Visits xs (xs.flatMap (m.walkFrom m.size)) :=
    visits_walkFrom h.links fun k hk => ⟨0, h.depth_zero (hxs k hk), by omega⟩
  have hks : ∀ k ∈ ks, k ∈ m.topLevelKeys := fun k hk => hkeys ▸ List.mem_append_left _ hk
  have hls : ∀ k ∈ ls, k ∈ m.topLevelKeys := fun k hk =>
    hkeys ▸ List.mem_append_right _ (List.mem_cons_of_mem _ hk)
  have hfirst := hroots hks
  have hlast := hroots hls
  have hself := h.visits_from hdepth.live
  have hwalk : m.walk = ks.flatMap (m.walkFrom m.size) ++
      (m.walkFrom m.size p ++ ls.flatMap (m.walkFrom m.size)) := by
    rw [walk, hkeys, List.flatMap_append, List.flatMap_cons]
  generalize ks.flatMap (m.walkFrom m.size) = xs at hfirst hwalk
  generalize ls.flatMap (m.walkFrom m.size) = ys at hlast hwalk
  generalize m.walkFrom m.size p = block at hself hwalk
  cases hself with
  | @cons _ _ below _ hbelow hnil =>
    cases hnil
    rw [h.filter_isConnection_folder hrole, List.append_nil, List.append_nil] at hwalk
    -- The folder is met once, so it is in none of the other parts of the walk.
    have hnodup := h.walkExact.nodup
    rw [hwalk, List.cons_append] at hnodup
    obtain ⟨-, hrest, hapart⟩ := List.nodup_append'.1 hnodup
    obtain ⟨hnot, -⟩ := List.nodup_cons.1 hrest
    rw [List.mem_append, not_or] at hnot
    have hpxs : p ∉ xs := fun hmem => hapart hmem List.mem_cons_self
    have hall := (Visits.added h hn hb hfirst hpxs).append
      ((Visits.added_folder h hn hb hrole hbelow hnot.1).append (Visits.added h hn hb hlast hnot.2))
    have hkeys' : (m.added p b).topLevelKeys = ks ++ ([p] ++ ls) := hkeys
    rw [← hkeys'] at hall
    refine ⟨xs ++ p :: below, ys, by simpa using hwalk, ?_, fun x hx hw => ?_⟩
    · rw [hall.unique hn.walkExact.ends]
      simp
    · obtain ⟨a, ha, hwa⟩ := (hlast.mem_iff h.toConsistent fun k hk => (h.depth_zero (hls k hk)).live).1 hx
      obtain rfl := hw.eq_of_same_depth hwa hdepth (h.depth_zero (hls a ha))
      have hkeys_nodup := h.top.nodup
      rw [hkeys] at hkeys_nodup
      exact (List.nodup_cons.1 (List.nodup_append'.1 hkeys_nodup).2.1).1 ha

end Walk

/-! ## The relationships of a concept -/

/-- All relationships lie below the top-level folder for them. -/
theorem Sound.within_of_touches (h : m.Sound) (ht : m.TypesExact) {a : Key}
    (ha : m.topLevelFolder? .relations = some a) (hx : m.touches c x = true) : m.Within x a := by
  obtain ⟨type, concept, source, target, hconcept, hkind, -⟩ := touches_iff.1 hx
  obtain ⟨a', ha', hw⟩ := h.inTree_of_concept ht (role?_of_concept? hconcept)
  rw [hkind, show FolderType.forCategory _ = .relations from rfl, ha] at ha'
  cases ha'
  exact hw

theorem touches_added_of_ne (h : m.objects.Sound) (hx : x ≠ m.nextKey) :
    (m.added p b).touches c x = m.touches c x := by
  rw [touches, ends?, concept?, get?_added_of_ne h p b hx]
  rfl

theorem Sound.relationships_added (h : m.Sound) (ht : m.TypesExact) {a source target : Key}
    {type : RelationshipType} (ha : m.topLevelFolder? .relations = some a)
    (hb : b = .concept ⟨.named "", .relationship type source target⟩)
    (hn : (m.added a b).Sound) (c : Key) :
    (Snapshot.of (m.added a b)).relationships.getD c [] =
      (Snapshot.of m).relationships.getD c [] ++
        if c = source ∨ c = target then [m.nextKey] else [] := by
  have htop : a ∈ m.topLevelKeys := List.mem_map.2 ⟨_, ht.topLevelFolder?_eq_some.1 ha, rfl⟩
  obtain ⟨before, after, hwalk, hwalk', hafter⟩ := h.walk_added hn (by rw [hb]; rfl) htop
  have hnext : m.nextKey ∉ m.walk := fun hmem => by
    simpa [not_contains_nextKey h.slots] using (h.walkExact.mem_iff _).1 hmem
  have hkept {xs : List Key} (hxs : ∀ x ∈ xs, x ∈ m.walk) :
      xs.filter ((m.added a b).touches c) = xs.filter (m.touches c) :=
    List.filter_congr fun x hx =>
      touches_added_of_ne h.slots fun hxk => hnext (hxk ▸ hxs x hx)
  have hbefore : before.filter ((m.added a b).touches c) = before.filter (m.touches c) :=
    hkept fun x hx => hwalk ▸ List.mem_append_left _ hx
  have hnone : after.filter (m.touches c) = [] := List.filter_eq_nil_iff.2 fun x hx htouches =>
    hafter x hx (h.within_of_touches ht ha htouches)
  have hnone' : after.filter ((m.added a b).touches c) = [] :=
    (hkept fun x hx => hwalk ▸ List.mem_append_right _ hx).trans hnone
  have hself : (m.added a b).touches c m.nextKey = decide (c = source ∨ c = target) := by
    rw [touches, ends?, concept?_of_get? (get?_added_self h.slots a b), hb]
    simp [Body.concept?, ConceptKind.ends?, eq_comm]
  rw [Snapshot.relationships_of, Snapshot.relationships_of, hwalk', hwalk, List.filter_append,
    List.filter_append, List.filter_cons, hbefore, hnone, hnone', hself, List.append_nil]
  simp

/-! ## Routes -/

theorem navigate_related_fst (m : Model) (k : Key) (r : Relation) (e : Endpoint) (ix : GraphIndex) :
    (navigate m (.object k) (.related r e) ix).1 = (relatedEnd? m k r e ix).1.map .object := rfl

/-- A route to an end of the first relationship of a type goes on to lead to where it led if other
relationships come after those that were there. -/
theorem relatedEnd?_of_append (hix : ix.Serves m) (hjx : jx.Serves n) {r : Relation} {e : Endpoint}
    {y : Key} (hroot : ∀ c, m.underlyingConcept? x = some c → n.underlyingConcept? x = some c)
    (hmore : ∀ c, ∃ more, (Snapshot.of n).relationships.getD c [] =
      (Snapshot.of m).relationships.getD c [] ++ more)
    (hkept : ∀ c, ∀ k ∈ (Snapshot.of m).relationships.getD c [], n.concept? k = m.concept? k)
    (h : (relatedEnd? m x r e ix).1 = some y) : (relatedEnd? n x r e jx).1 = some y := by
  cases r with
  | unknown keyword => cases h
  | known type =>
    cases hc : m.underlyingConcept? x with
    | none =>
      unfold relatedEnd? at h
      rw [hc] at h
      cases h
    | some c =>
      obtain ⟨more, hlist⟩ := hmore c
      have hkinds : ((Snapshot.of m).relationships.getD c []).filterMap
            (fun k => (n.concept? k).map (·.kind)) =
          ((Snapshot.of m).relationships.getD c []).filterMap
            fun k => (m.concept? k).map (·.kind) :=
        List.filterMap_congr fun k hk => by rw [hkept c k hk]
      rw [Sound.relatedEnd?_fst hix hc] at h
      rw [Sound.relatedEnd?_fst hjx (hroot c hc), hlist, List.filterMap_append, hkinds, List.find?_append]
      generalize List.find? _ (((Snapshot.of m).relationships.getD c []).filterMap _) = found at h ⊢
      cases found with
      | none => cases h
      | some kind => exact h

/-! ## The property -/

/-- In every reachable model a relationship is added between any two concepts.  One that is added to the
top-level folder comes last of the relationships of its ends, and the other lists are as before; so
whatever route leads from an object to an end of a relationship goes on to lead there. -/
theorem Reachable.relationship_added_last (h : m.Reachable) (type : RelationshipType)
    {source target : Key} (hsource : (m.concept? source).isSome = true)
    (htarget : (m.concept? target).isSome = true) :
    ∃ r n, m.apply (.addRelationship type source target) = (.ok (.added r), n) ∧
      ∀ ix jx, ix.Serves m → jx.Serves n →
        (∀ c, (relationshipsOf n c jx).1 =
          (relationshipsOf m c ix).1 ++ if c = source ∨ c = target then [r] else []) ∧
        ∀ root relation e t, (navigate m root (.related relation e) ix).1 = some t →
          (navigate n root (.related relation e) jx).1 = some t := by
  have hs := h.sound
  have ht : m.TypesExact := h.topLevel_types
  obtain ⟨a, ha, happly⟩ := hs.apply_addRelationship ht type source target
  obtain ⟨first, hfirst⟩ : ∃ first, m.requireConcept source = .ok first := by
    rcases m.requireConcept_cases source with ⟨first, hfirst, -⟩ | ⟨e, -, hnone, -⟩
    · exact ⟨first, hfirst⟩
    · simp [hnone] at hsource
  obtain ⟨second, hsecond⟩ : ∃ second, m.requireConcept target = .ok second := by
    rcases m.requireConcept_cases target with ⟨second, hsecond, -⟩ | ⟨e, -, hnone, -⟩
    · exact ⟨second, hsecond⟩
    · simp [hnone] at htarget
  rw [hfirst, hsecond] at happly
  have hn : (m.added a (.concept ⟨.named "", .relationship type source target⟩)).Sound := by
    have hstep := (h.step (.apply (.addRelationship type source target))).sound
    rwa [happly] at hstep
  have hlists := hs.relationships_added ht ha rfl hn
  refine ⟨_, _, happly, fun ix jx hix hjx => ⟨fun c => ?_, fun root relation e t hnavigate => ?_⟩⟩
  · rw [hjx.relationshipsOf_fst, hix.relationshipsOf_fst, hlists]
  · cases root with
    | model => cases hnavigate
    | object x =>
      rw [navigate_related_fst] at hnavigate ⊢
      obtain ⟨y, hy, rfl⟩ := Option.map_eq_some_iff.1 hnavigate
      refine Option.map_eq_some_iff.2 ⟨y, ?_, rfl⟩
      -- Whatever is there is as before, and so are the relationships that were listed.
      have hkept {k : Key} (hk : m.contains k = true) := get?_added_of_contains hs.slots a
        (.concept ⟨.named "", .relationship type source target⟩) hk
      refine relatedEnd?_of_append hix hjx (fun c hc => ?_) (fun c => ⟨_, hlists c⟩) ?_ hy
      · obtain ⟨o, ho, -⟩ := standsFor_iff.2 hc
        unfold underlyingConcept? at hc ⊢
        rw [hkept (contains_of_get? ho)]
        exact hc
      · intro c k hk
        obtain ⟨type, concept, -, -, hconcept, -⟩ := touches_iff.1 (hs.mem_relationships.1 hk)
        obtain ⟨o, ho, -⟩ := Option.bind_eq_some_iff.1 hconcept
        rw [concept?, hkept (contains_of_get? ho), concept?]

/-- The first of two associations lies in a folder that was made before it; a route that followed it
still leads to its source. -/
theorem relationship_added_last_nested :
    let relations : Key := ⟨7, 8⟩
    let buyer := (new 1 "Plan").nextKey
    let m₁ := ((new 1 "Plan").apply (.addElement .businessActor "Buyer")).2
    let seller := m₁.nextKey
    let m₂ := (m₁.apply (.addElement .businessActor "Seller")).2
    let folder := m₂.nextKey
    let m₃ := (m₂.apply (.addFolder relations "Sales")).2
    let first := m₃.nextKey
    let m₄ := (m₃.apply (.addRelationship .association seller buyer)).2
    let m := (m₄.apply (.moveTo first folder)).2
    let n := (m.apply (.addRelationship .association buyer buyer)).2
    m.Reachable ∧ (m.concept? buyer).isSome = true ∧
      (relationshipsOf n buyer .empty).1 = [first, m.nextKey] ∧
      (relationshipsOf n seller .empty).1 = [first] ∧
      (navigate n (.object buyer) (.related (.known .association) .source) .empty).1 =
        some (.object seller) := by
  intro relations buyer m₁ seller m₂ folder m₃ first m₄ m n
  have hm : m.Reachable := .step (.step (.step (.step (.step (.new 1 "Plan") (.apply _)) (.apply _))
    (.apply _)) (.apply _)) (.apply _)
  have hbuyer : (m.concept? buyer).isSome = true := by decide +kernel
  obtain ⟨r, n', happly, hlast⟩ := hm.relationship_added_last .association hbuyer hbuyer
  obtain rfl : n = n' := congrArg Prod.snd happly
  have hanswer : (m.apply (.addRelationship .association buyer buyer)).1 =
    .ok (.added m.nextKey) := by decide +kernel
  rw [happly] at hanswer
  obtain rfl : r = m.nextKey := Operation.Answer.added.inj (Except.ok.inj hanswer)
  obtain ⟨hlists, hroutes⟩ := hlast .empty .empty .empty .empty
  have hlisted (c : Key) : (relationshipsOf m c .empty).1 = m.walk.filter (m.touches c) :=
    (Serves.empty.relationshipsOf_fst c).trans (Snapshot.relationships_of m c)
  refine ⟨hm, hbuyer, ?_, ?_, hroutes _ _ _ _ ?_⟩
  · rw [hlists, hlisted]
    decide +kernel
  · rw [hlists, hlisted]
    decide +kernel
  · have hfound : (relatedEnd? m buyer (.known .association) .source .empty).1 = some seller := by
      rw [Sound.relatedEnd?_fst (c := buyer) .empty (by decide +kernel), Snapshot.relationships_of]
      decide +kernel
    rw [navigate_related_fst, hfound]
    rfl

end Model
end ModelLabels
