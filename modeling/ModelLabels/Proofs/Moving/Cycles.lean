import ModelLabels.Navigation
import ModelLabels.Proofs.Moving.Admission
import ModelLabels.Proofs.Moving.Blocks
import ModelLabels.Proofs.References
/-! # The test for cycles is exact

Before a folder or a diagram object moves, the owners of the new place are searched for it.  The search
follows what objects name as their owner, while what lies below an object is found over links; both
agree, so a move is refused just where the new owner is met on the walk from the object.

* `Model.Climbs`: the search without a bound; `Rooted.exists_climbs`: it ends.
* `Model.LoopsEnd`: the searches, and the answers of the bounded one.
* `Reachable.cycle_test_exact`: the property.
-/

namespace ModelLabels.Model
set_option autoImplicit false

variable {m : Model} {k p a : Key} {b c : Bool} {next : Key → Option Key} {o : Object}

/-! ## Searching over owners -/

/-- A search that goes up from an object step by step, without a bound, until it meets another one or
cannot go on, ends with an answer. -/
inductive Climbs (next : Key → Option Key) (a : Key) : Key → Bool → Prop where
  | met : Climbs next a a true
  | ended {k : Key} (hk : k ≠ a) (hnext : next k = none) : Climbs next a k false
  | up {k p : Key} {b : Bool} (hk : k ≠ a) (hnext : next k = some p) (hp : Climbs next a p b) :
      Climbs next a k b

/-- The folder that a folder lies in. -/
def folderAbove? (m : Model) (k : Key) : Option Key :=
  if (m.folder? k).isSome then m.owner? k else none

theorem folderAbove?_eq_some : m.folderAbove? k = some p ↔
    (m.folder? k).isSome = true ∧ m.owner? k = some p :=
  Option.ite_none_right_eq_some

theorem container?_eq_some : m.container? k = some p ↔
    (m.diagramObject? k).isSome = true ∧ m.owner? k = some p :=
  Option.ite_none_right_eq_some

theorem Climbs.unique (h : Climbs next a k b) (h' : Climbs next a k c) : b = c := by
  induction h with
  | met =>
    cases h' with
    | met => rfl
    | ended hk _ => exact absurd rfl hk
    | up hk _ _ => exact absurd rfl hk
  | ended hk hnext =>
    cases h' with
    | met => exact absurd rfl hk
    | ended _ _ => rfl
    | up _ hnext' _ => simp [hnext] at hnext'
  | up hk hnext _ ih =>
    cases h' with
    | met => exact absurd rfl hk
    | ended _ hnext' => simp [hnext] at hnext'
    | up _ hnext' hp =>
      obtain rfl := Option.some.inj (hnext.symm.trans hnext')
      exact ih hp

/-- A search that goes from objects to their owners ends, since it starts at some depth or, from a key
that leads nowhere, does not go on at all. -/
theorem Rooted.exists_climbs (h : m.Rooted)
    (hnext : ∀ k p, next k = some p → m.owner? k = some p) (a k : Key) : ∃ b, Climbs next a k b := by
  have hstop {k : Key} (hown : m.owner? k = none) : ∃ b, Climbs next a k b := by
    by_cases hk : k = a
    · exact ⟨true, hk ▸ .met⟩
    · refine ⟨false, .ended hk (Option.eq_none_iff_forall_ne_some.2 fun p hp => ?_)⟩
      simp [hnext k p hp] at hown
  by_cases hlive : m.contains k = true
  · obtain ⟨d, hd⟩ := h k hlive
    induction hd with
    | top _ hown => exact hstop hown
    | @owned k p d hown hp ih =>
      obtain ⟨b, hb⟩ := ih hp.live
      by_cases hk : k = a
      · exact ⟨true, hk ▸ .met⟩
      · cases hn : next k with
        | none => exact ⟨false, .ended hk hn⟩
        | some q =>
          obtain rfl := Option.some.inj (hown.symm.trans (hnext k q hn))
          exact ⟨b, .up hk hn hb⟩
  · refine hstop (Option.eq_none_iff_forall_ne_some.2 fun p hp => hlive (contains_of_owner? hp))

theorem Rooted.existsUnique_climbs (h : m.Rooted)
    (hnext : ∀ k p, next k = some p → m.owner? k = some p) (a k : Key) : ∃! b, Climbs next a k b := by
  obtain ⟨b, hb⟩ := h.exists_climbs hnext a k
  exact ⟨b, hb, fun c hc => hc.unique hb⟩

theorem Climbs.within_iff (h : Climbs m.owner? a k b) : b = true ↔ m.Within k a := by
  induction h with
  | met => exact ⟨fun _ => .refl, fun _ => rfl⟩
  | ended hk hnext => simpa using not_within_of_owner?_none hk hnext
  | up hk hnext _ ih => rw [ih, within_iff_of_owner? hk hnext]

/-- The bounded search finds out the same, for keys that lead nowhere too. -/
theorem Rooted.isWithin_iff (h : m.Rooted) : m.isWithin k a = true ↔ m.Within k a := by
  refine ⟨within_of_isAmongOwners, fun hw => ?_⟩
  rcases Relation.ReflTransGen.cases_head hw with rfl | ⟨p, hown, -⟩
  · simp [isWithin, isAmongOwners]
  · obtain ⟨d, hd⟩ := h k (contains_of_owner? hown)
    exact hd.isWithin_iff.2 hw

theorem Rooted.climbs_isWithin (h : m.Rooted) (k a : Key) :
    Climbs m.owner? a k (m.isWithin k a) := by
  obtain ⟨b, hb⟩ := h.exists_climbs (fun _ _ hp => hp) a k
  have heq : b = m.isWithin k a := Bool.eq_iff_iff.2 (hb.within_iff.trans h.isWithin_iff.symm)
  exact heq ▸ hb

/-- All above a folder are folders, so the search over folders misses none of the owners. -/
theorem Consistent.climbs_folders (h : m.Consistent) (hk : (m.folder? k).isSome = true)
    (hc : Climbs m.folderAbove? a k b) : Climbs m.owner? a k b := by
  induction hc with
  | met => exact .met
  | ended hne hnext =>
    rw [folderAbove?, if_pos hk] at hnext
    exact .ended hne hnext
  | @up k p b hne hnext _ ih =>
    obtain ⟨-, hown⟩ := folderAbove?_eq_some.1 hnext
    obtain ⟨f, hf⟩ := Option.isSome_iff_exists.1 hk
    obtain ⟨t, ht⟩ := h.folder_of_owner (role?_of_folder? hf) hown
    exact .up hne hown (ih (folder?_of_role? ht))

theorem Consistent.folder_above_view (h : m.Consistent) (hk : m.role? k = some .view)
    (hne : k ≠ a) (hw : m.Within k a) : ∃ t r, m.role? a = some (.folder t r) := by
  rcases Relation.ReflTransGen.cases_head hw with rfl | ⟨p, hown, hpa⟩
  · exact absurd rfl hne
  · obtain ⟨q, hq, t, ht⟩ := h.exists_owner hk (by simp)
    obtain rfl := Option.some.inj (hown.symm.trans hq)
    obtain ⟨t', ht'⟩ := h.folder_of_within hpa ht
    exact ⟨t', _, ht'⟩

/-- Above a view there are folders only, so the search over containers may stop at the view. -/
theorem Consistent.climbs_containers (h : m.Consistent)
    (hk : (m.view? k).isSome = true ∨ (m.diagramObject? k).isSome = true)
    (ha : (m.diagramObject? a).isSome = true) (hc : Climbs m.container? a k b) :
    b = true ↔ m.Within k a := by
  obtain ⟨e, he⟩ := Option.isSome_iff_exists.1 ha
  induction hc with
  | met => exact ⟨fun _ => .refl, fun _ => rfl⟩
  | @ended k hne hnext =>
    refine ⟨fun hb => (by cases hb), fun hw => ?_⟩
    rcases hk with hview | hobject
    · obtain ⟨t, r, hr⟩ := h.folder_above_view (view?_isSome_iff.1 hview) hne hw
      simp [role?_of_diagramObject? he] at hr
    · obtain ⟨d, hd⟩ := Option.isSome_iff_exists.1 hobject
      obtain ⟨p, hown, -⟩ := h.exists_owner (role?_of_diagramObject? hd) (by simp)
      simp [container?, hd, hown] at hnext
  | @up k p b hne hnext _ ih =>
    obtain ⟨hobject, hown⟩ := container?_eq_some.1 hnext
    obtain ⟨d, hd⟩ := Option.isSome_iff_exists.1 hobject
    obtain ⟨q, hq, hholds⟩ := h.exists_owner (role?_of_diagramObject? hd) (by simp)
    obtain rfl := Option.some.inj (hown.symm.trans hq)
    rw [within_iff_of_owner? hne hown]
    refine ih (hholds.imp (fun hv => view?_of_role? hv.1) fun ⟨s, hs⟩ => diagramObject?_of_role? hs)

/-- The searches over folders and over containers end with one answer, from every object and for every
object to be met; where a move asks for it, the answer is that of the bounded search over owners. -/
structure LoopsEnd (m : Model) : Prop where
  folders : ∀ k a, ∃! b, Climbs m.folderAbove? a k b
  containers : ∀ k a, ∃! b, Climbs m.container? a k b
  bounded : ∀ k a, Climbs m.owner? a k (m.isWithin k a)
  folder_answer : ∀ k a, (m.folder? k).isSome = true → Climbs m.folderAbove? a k (m.isWithin k a)
  container_answer : ∀ k a, (m.view? k).isSome = true ∨ (m.diagramObject? k).isSome = true →
    (m.diagramObject? a).isSome = true → Climbs m.container? a k (m.isWithin k a)

theorem Consistent.loopsEnd (h : m.Consistent) : m.LoopsEnd := by
  have hfolders : ∀ k p, m.folderAbove? k = some p → m.owner? k = some p := fun k p hp =>
    (folderAbove?_eq_some.1 hp).2
  have hcontainers : ∀ k p, m.container? k = some p → m.owner? k = some p := fun k p hp =>
    (container?_eq_some.1 hp).2
  refine ⟨fun k a => h.rooted.existsUnique_climbs hfolders a k,
    fun k a => h.rooted.existsUnique_climbs hcontainers a k, h.rooted.climbs_isWithin,
    fun k a hk => ?_, fun k a hk ha => ?_⟩
  · obtain ⟨b, hb⟩ := h.rooted.exists_climbs hfolders a k
    have heq : b = m.isWithin k a := (h.climbs_folders hk hb).unique (h.rooted.climbs_isWithin k a)
    exact heq ▸ hb
  · obtain ⟨b, hb⟩ := h.rooted.exists_climbs hcontainers a k
    have heq : b = m.isWithin k a :=
      Bool.eq_iff_iff.2 ((h.climbs_containers hk ha hb).trans h.rooted.isWithin_iff.symm)
    exact heq ▸ hb

/-! ## Moves -/

/-- A move is answered with a cycle if the new owner is the object itself or is met on the walk from it;
any other move is carried out. -/
def CycleTested (m : Model) (k p : Key) (id : String) : Prop :=
  (m.apply (.moveTo k p)).1 =
    if p = k ∨ p ∈ m.walkFrom m.size k then .error (.cycle id) else .ok .done

theorem Sound.cycleTested (h : m.Sound) (ho : m.get? k = some o) (hown : o.owner ≠ none)
    (hc : o.role.isConnection = false) (hp : m.Holds p o.role) : m.CycleTested k p o.id := by
  have hk : m.contains k = true := contains_of_get? ho
  have hmet : (p = k ∨ p ∈ m.walkFrom m.size k) ↔ m.isWithin p k = true := by
    rw [h.rooted.isWithin_iff, h.mem_walkFrom hk]
    exact or_iff_right_of_imp fun hpk => hpk ▸ .refl
  rw [CycleTested, apply_moveTo, h.checkMove_eq ho hown hc hp]
  simp only [hmet]
  cases m.isWithin p k <;> rfl

theorem Consistent.owner_of_user (h : m.Consistent) {f : Folder} (ho : m.get? k = some o)
    (hf : o.body = .folder f) (htype : f.type = .user) : o.owner ≠ none := by
  intro hown
  obtain ⟨-, hfit⟩ := h.fits ho
  rw [hown] at hfit
  obtain ⟨t, ht, hne⟩ := hfit
  rw [Object.role, hf] at ht
  exact hne ((Role.folder.inj ht).1.symm.trans htype)

/-- In every reachable model a folder moves among the folders of its tree, and a diagram object among
the containers of its view, to all places but those below itself; and the searches for such places
end. -/
theorem Reachable.cycle_test_exact (h : m.Reachable) :
    (∀ k p o f g, m.get? k = some o → o.body = .folder f → f.type = .user →
      m.folder? p = some g → g.rootType = f.rootType → m.CycleTested k p o.id) ∧
    (∀ k p o d, m.get? k = some o → o.body = .diagramObject d →
      (p = d.view ∨ ∃ e, m.diagramObject? p = some e ∧ e.view = d.view) → m.CycleTested k p o.id) ∧
    m.LoopsEnd := by
  refine ⟨fun k p o f g ho hf htype hg hroot => ?_, fun k p o d ho hd hp => ?_,
    h.sound.toConsistent.loopsEnd⟩
  · have hown := h.sound.owner_of_user ho hf htype
    have hrole : o.role = .folder f.type f.rootType := by rw [Object.role, hf]
    refine h.sound.cycleTested ho hown (by rw [hrole]; rfl) ?_
    rw [hrole]
    exact ⟨g.type, hroot ▸ role?_of_folder? hg⟩
  · have hrole : o.role = .diagramObject d.shows.outline d.view := by rw [Object.role, hd]
    obtain ⟨q, hown, -⟩ := (h.sound.fits ho).exists_owner (by simp [hrole])
    refine h.sound.cycleTested ho (by simp [hown]) (by rw [hrole]; rfl) ?_
    rw [hrole]
    rcases hp with hview | ⟨e, he, hview⟩
    · have hdrawn := h.sound.drawn (role?_of_get? ho) (v := d.view) (by rw [hrole]; rfl)
      exact .inl ⟨hview ▸ hdrawn, hview.symm⟩
    · exact .inr ⟨e.shows.outline, hview ▸ role?_of_diagramObject? he⟩

/-- A folder does not move into one that was moved into it, and moves to its old place all the same. -/
theorem cycle_test_exact_folders :
    let m₁ := ((new 1 "Plan").apply (.addFolder ⟨1, 2⟩ "Actors")).2
    let outer := (new 1 "Plan").nextKey
    let m₂ := (m₁.apply (.addFolder ⟨1, 2⟩ "Roles")).2
    let inner := m₁.nextKey
    let n := (m₂.apply (.moveTo inner outer)).2
    n.Reachable ∧ n.owner? inner = some outer ∧
      (n.apply (.moveTo outer inner)).1 = .error (.cycle "id-0000000b") ∧
      (n.apply (.moveTo outer ⟨1, 2⟩)).1 = .ok .done ∧ n.LoopsEnd := by
  intro m₁ outer m₂ inner n
  have hn : n.Reachable := .step (.step (.step (.new 1 "Plan") (.apply _)) (.apply _)) (.apply _)
  obtain ⟨hfolders, -, hloops⟩ := hn.cycle_test_exact
  have houter : n.get? outer =
      some ⟨"id-0000000b", some ⟨1, 2⟩, .folder ⟨.named "Actors", .user, .business⟩⟩ := by
    decide +kernel
  have hinner : n.folder? inner = some ⟨.named "Roles", .user, .business⟩ := by decide
  have hbusiness : n.folder? ⟨1, 2⟩ = some ⟨.named "Business", .business, .business⟩ := by decide
  have hcycle := hfolders outer inner _ _ _ houter rfl rfl hinner rfl
  have hmove := hfolders outer ⟨1, 2⟩ _ _ _ houter rfl rfl hbusiness rfl
  rw [CycleTested, if_pos (by decide)] at hcycle
  rw [CycleTested, if_neg (by decide)] at hmove
  exact ⟨hn, by decide, hcycle, hmove, hloops⟩

end ModelLabels.Model
