import ModelLabels.Proofs.Integrity.Preservation
/-! # Identifiers are made up once

An identifier is made up by trying the next numbers until one is free.  The search ends, since all that it
tries in vain are in use and no two of them are the same.  The number it ends with is above all that were
tried before, in the whole history of the model, so no identifier is made up twice, whatever became of
the object that it was made up for.

* `IdSearch`: the search, with its rounds; `idSearch_freeIdNumber`, `IdSearch.rounds_le`.
* `Model.identifiers`: the identifiers in use; `mem_identifiers`, `identifiers_nodup`.
* `Model.Issued`: the identifiers that were made up in the history of a model; `Reachable.exists_issued`.
* `Model.Counted`: none of them comes again; `Issued.counted`.
* `Model.Reachable.identifier_made_up`: the property.
-/

namespace ModelLabels
set_option autoImplicit false

/-! ## The search -/

/-- The search for an identifier that is not in use, behind the last one that was made up, with the rounds
that it takes and the number that it ends with.  Nothing but a free identifier ends it. -/
inductive IdSearch (used : List String) : Nat → Nat → Nat → Prop where
  | free {last : Nat} (h : idText (last + 1) ∉ used) : IdSearch used last 1 (last + 1)
  | next {last rounds number : Nat} (h : idText (last + 1) ∈ used)
      (hmore : IdSearch used (last + 1) rounds number) : IdSearch used last (rounds + 1) number

section IdSearch
variable {used ids : List String} {last rounds number tries : Nat}

theorem IdSearch.number_eq (h : IdSearch used last rounds number) :
    number = last + rounds ∧ 0 < rounds := by
  induction h with
  | free _ => exact ⟨rfl, Nat.one_pos⟩
  | next _ _ ih => omega

/-- All identifiers that are tried before the last one are in use. -/
theorem IdSearch.idText_mem (h : IdSearch used last rounds number) {i : Nat} (hlow : last < i)
    (hhigh : i < number) : idText i ∈ used := by
  induction h with
  | free _ => omega
  | @next last rounds number hused hmore ih =>
    by_cases hi : i = last + 1
    · rw [hi]
      exact hused
    · exact ih (by omega) hhigh

/-- The search takes at most one round more than there are identifiers in use. -/
theorem IdSearch.rounds_le (h : IdSearch used last rounds number) (hids : used ⊆ ids) :
    rounds ≤ ids.length + 1 := by
  obtain ⟨hnumber, hpos⟩ := h.number_eq
  have hle : rounds - 1 ≤ ids.length :=
    le_length_of_idText_mem last fun i hlow hhigh => hids (h.idText_mem hlow (by omega))
  omega

theorem idSearch_freeIdNumber_of_not_mem (h : idText (freeIdNumber used tries last) ∉ used) :
    ∃ rounds, IdSearch used last rounds (freeIdNumber used tries last) := by
  induction tries generalizing last with
  | zero => exact ⟨1, .free h⟩
  | succ tries ih =>
    unfold freeIdNumber at h ⊢
    by_cases hused : idText (last + 1) ∈ used
    · rw [if_pos hused] at h ⊢
      obtain ⟨rounds, hmore⟩ := ih h
      exact ⟨rounds + 1, .next hused hmore⟩
    · rw [if_neg hused]
      exact ⟨1, .free hused⟩

end IdSearch

namespace Model
variable {m n : Model} {ids : List String} {id : String}

/-- An identifier is made up by such a search. -/
theorem idSearch_freshId (m : Model) :
    ∃ rounds, IdSearch m.usedIds m.lastId rounds m.freshId.2.lastId :=
  idSearch_freeIdNumber_of_not_mem m.freshId_not_mem

theorem lastId_lt_freshId (m : Model) : m.lastId < m.freshId.2.lastId := by
  obtain ⟨rounds, hsearch⟩ := m.idSearch_freshId
  obtain ⟨hnumber, hpos⟩ := hsearch.number_eq
  omega

/-! ## Identifiers in use -/

/-- The identifiers of the model and of its objects. -/
def identifiers (m : Model) : List String := m.id :: m.objects.keys.filterMap m.idOf?

theorem mem_identifiers (h : m.IdsExact) : id ∈ m.identifiers ↔ id ∈ m.usedIds := by
  rw [identifiers, List.mem_cons, List.mem_filterMap, h.mem_usedIds]
  refine or_congr_right (exists_congr fun k => and_iff_right_of_imp fun hk => ?_)
  obtain ⟨o, ho, -⟩ := Option.map_eq_some_iff.1 hk
  exact Store.mem_keys_of_get? ho

theorem identifiers_nodup (h : m.Sound) : m.identifiers.Nodup := by
  refine List.nodup_cons.2 ⟨fun hmem => ?_, ?_⟩
  · obtain ⟨k, -, hk⟩ := List.mem_filterMap.1 hmem
    exact h.ids.ne_id k hk
  · exact h.slots.keys_nodup.filterMap fun k l id hk hl => h.ids.injective hk hl

/-! ## Histories -/

/-- The identifiers that were made up in the history of a model, up to one of its states: all those that a
new model has, and then, the latest one first, those of the objects that were added.  A copy has the
history of the model it was made of. -/
inductive Issued : Model → List String → Prop where
  | new (instanceNumber : Nat) (name : String) :
      Issued (new instanceNumber name) (new instanceNumber name).identifiers
  | copy {m : Model} {ids : List String} (instanceNumber : Nat) (h : Issued m ids) :
      Issued (m.copy instanceNumber) ids
  | added {m n : Model} {ids : List String} {op : Operation} {key : Key} {id : String}
      (h : Issued m ids) (hop : m.apply op = (.ok (.added key), n)) (hid : n.idOf? key = some id) :
      Issued n (id :: ids)
  | kept {m : Model} {ids : List String} {op : Operation} (h : Issued m ids)
      (hop : ∀ key, (m.apply op).1 ≠ .ok (.added key)) : Issued (m.apply op).2 ids
  | cleared {m : Model} {ids : List String} {k : Key} {o : Object} {ks : List Key} (h : Issued m ids)
      (ho : m.get? k = some o) (htop : o.isTopLevel = false) (hks : ks.Perm (m.doomed k)) :
      Issued (m.cleared ks) ids

theorem Issued.reachable (h : m.Issued ids) : m.Reachable := by
  induction h with
  | new instanceNumber name => exact .new instanceNumber name
  | copy instanceNumber _ ih => exact .copy instanceNumber ih
  | @added m n _ op _ _ _ hop _ ih =>
    have hn : (m.apply op).2 = n := congrArg Prod.snd hop
    exact hn ▸ .step ih (.apply op)
  | kept _ _ ih => exact .step ih (.apply _)
  | cleared _ ho htop hks ih => exact .step ih (.clear ho htop hks)

/-! ## Numbers of identifiers -/

/-- No two of the identifiers are the same, and each has a number that is not above the last one. -/
structure Counted (m : Model) (ids : List String) : Prop where
  nodup : ids.Nodup
  numbered : ∀ id ∈ ids, ∃ i ≤ m.lastId, idText i = id

namespace Counted

theorem freshId_not_mem (h : m.Counted ids) : m.freshId.1 ∉ ids := by
  intro hmem
  obtain ⟨i, hi, hid⟩ := h.numbered _ hmem
  have hlast : i = m.freshId.2.lastId := idText_injective hid
  have hlt := m.lastId_lt_freshId
  omega

theorem congr (h : m.Counted ids) (hlast : n.lastId = m.lastId) : n.Counted ids where
  nodup := h.nodup
  numbered := by
    rw [hlast]
    exact h.numbered

/-- An identifier that is made up joins the others, and its number is the last one. -/
theorem cons (h : m.Counted ids) (hlast : n.lastId = m.freshId.2.lastId) :
    n.Counted (m.freshId.1 :: ids) where
  nodup := List.nodup_cons.2 ⟨h.freshId_not_mem, h.nodup⟩
  numbered := by
    have hlt := m.lastId_lt_freshId
    rw [hlast]
    refine List.forall_mem_cons.2 ⟨⟨_, Nat.le_refl _, rfl⟩, fun id hid => ?_⟩
    obtain ⟨i, hi, hid⟩ := h.numbered id hid
    exact ⟨i, by omega, hid⟩

end Counted

/-- Nothing but an addition makes up an identifier. -/
theorem Effect.lastId_eq {answer : Operation.Answer} (h : m.Effect answer n)
    (hanswer : ∀ key, answer ≠ .added key) : n.lastId = m.lastId := by
  cases h with
  | cleared _ _ _ => exact (m.cleared_counters _).1
  | added _ => exact absurd rfl (hanswer _)
  | _ => rfl

theorem lastId_apply {op : Operation} (h : ∀ key, (m.apply op).1 ≠ .ok (.added key)) :
    (m.apply op).2.lastId = m.lastId := by
  unfold apply at h ⊢
  cases hrun : op.run m with
  | ok answer n =>
    rw [hrun] at h
    exact (op.effect_of_run hrun).lastId_eq fun key hkey => h key (congrArg _ hkey)
  | error e n => rw [op.isAtomic_run m n e hrun]

/-- An object that is added gets the identifier that is made up for it. -/
theorem Sound.idOf?_added (h : m.Sound) {op : Operation} {key : Key}
    (hop : m.apply op = (.ok (.added key), n)) :
    n.idOf? key = some m.freshId.1 ∧ n.lastId = m.freshId.2.lastId := by
  cases op.effect_of_run (run_of_apply hop) with
  | @added p b _ =>
    have hget : (m.added p b).get? m.nextKey = some ⟨m.freshId.1, some p, b⟩ :=
      (get?_inserted h.slots (some p) b m.nextKey).trans (if_pos rfl)
    exact ⟨congrArg _ hget, rfl⟩

/-- All identifiers of a new model have been made up. -/
theorem counted_new (instanceNumber : Nat) (name : String) :
    (new instanceNumber name).Counted (new instanceNumber name).identifiers := by
  have hfold (ts : List FolderType) (m : Model) (h : m.Counted m.usedIds) :
      (ts.foldl addTopLevel m).Counted (ts.foldl addTopLevel m).usedIds := by
    induction ts generalizing m with
    | nil => exact h
    | cons t ts ih =>
      refine ih _ ?_
      rw [addTopLevel_eq]
      exact h.cons rfl
  have hblank : (blank instanceNumber name).Counted (blank instanceNumber name).usedIds :=
    ⟨List.nodup_singleton _, List.forall_mem_singleton.2 ⟨_, Nat.le_refl _, rfl⟩⟩
  have hsound := sound_new instanceNumber name
  refine ⟨identifiers_nodup hsound, fun id hid => ?_⟩
  exact (hfold _ _ hblank).numbered id ((mem_identifiers hsound.ids).1 hid)

theorem Issued.counted (h : m.Issued ids) : m.Counted ids := by
  induction h with
  | new instanceNumber name => exact counted_new instanceNumber name
  | copy instanceNumber _ ih => exact ih.congr rfl
  | added h hop hid ih =>
    obtain ⟨hnew, hlast⟩ := h.reachable.sound.idOf?_added hop
    rw [hid] at hnew
    cases hnew
    exact ih.cons hlast
  | kept _ hop ih => exact ih.congr (lastId_apply hop)
  | @cleared m ids k o ks _ _ _ _ ih => exact ih.congr (m.cleared_counters ks).1

/-- Every state of a model has a history. -/
theorem Reachable.exists_issued (h : m.Reachable) : ∃ ids, m.Issued ids := by
  induction h with
  | new instanceNumber name => exact ⟨_, .new instanceNumber name⟩
  | copy instanceNumber _ ih =>
    obtain ⟨ids, hids⟩ := ih
    exact ⟨ids, .copy instanceNumber hids⟩
  | @step m n hm hs ih =>
    obtain ⟨ids, hids⟩ := ih
    cases hs with
    | apply op =>
      by_cases hop : ∃ key, (m.apply op).1 = .ok (.added key)
      · obtain ⟨key, hkey⟩ := hop
        have hadd : m.apply op = (.ok (.added key), (m.apply op).2) := Prod.ext hkey rfl
        exact ⟨_, .added hids hadd (hm.sound.idOf?_added hadd).1⟩
      · exact ⟨ids, .kept hids fun key hkey => hop ⟨key, hkey⟩⟩
    | clear ho htop hks => exact ⟨ids, .cleared hids ho htop hks⟩

/-! ## The property -/

/-- In every reachable model the search for an identifier ends after at most one round more than there are
identifiers in use.  What it finds is not empty and not in use, the next object that is added gets it, and
in no history of the model it has been made up before, nor any other identifier twice. -/
theorem Reachable.identifier_made_up (h : m.Reachable) :
    (m.identifiers.Nodup ∧ ∀ id, id ∈ m.identifiers ↔ id ∈ m.usedIds) ∧
    (∃ rounds number, IdSearch m.usedIds m.lastId rounds number ∧
      m.freshId = (idText number, { m with lastId := number }) ∧ rounds ≤ m.identifiers.length + 1) ∧
    m.freshId.1 ≠ "" ∧ m.freshId.1 ∉ m.identifiers ∧
    (∀ op key n, m.apply op = (.ok (.added key), n) → n.idOf? key = some m.freshId.1) ∧
    (∃ ids, m.Issued ids) ∧ ∀ ids, m.Issued ids → ids.Nodup ∧ m.freshId.1 ∉ ids := by
  have hs := h.sound
  have hused (id : String) : id ∈ m.identifiers ↔ id ∈ m.usedIds := mem_identifiers hs.ids
  obtain ⟨rounds, hsearch⟩ := m.idSearch_freshId
  exact ⟨⟨identifiers_nodup hs, hused⟩,
    ⟨rounds, _, hsearch, rfl, hsearch.rounds_le fun id hid => (hused id).2 hid⟩,
    idText_ne_empty _, fun hmem => m.freshId_not_mem ((hused _).1 hmem),
    fun op key n hop => (hs.idOf?_added hop).1, h.exists_issued,
    fun ids hids => ⟨hids.counted.nodup, hids.counted.freshId_not_mem⟩⟩

/-- An object gave up the identifier that was made up for it, and has the one that would be made up next.
The one that is made up is behind both. -/
theorem identifier_made_up_behind :
    let m₀ := new 1 "Plan"
    let m₁ := (m₀.apply (.addElement .businessActor "Buyer")).2
    let m := (m₁.apply (.setId m₀.nextKey "id-0000000c")).2
    let ids := "id-0000000b" :: m₀.identifiers
    m.Reachable ∧ m.Issued ids ∧ "id-0000000b" ∉ m.usedIds ∧ "id-0000000c" ∈ m.usedIds ∧
      m.freshId.1 = "id-0000000d" ∧ IdSearch m.usedIds 11 2 13 ∧ ids.Nodup ∧ "id-0000000d" ∉ ids := by
  intro m₀ m₁ m ids
  have hm : m.Reachable := .step (.step (.new 1 "Plan") (.apply _)) (.apply _)
  have hadd : m₀.apply (.addElement .businessActor "Buyer") = (.ok (.added m₀.nextKey), m₁) :=
    Prod.ext (by decide +kernel) rfl
  have hissued : m.Issued ids := by
    refine .kept (.added (.new 1 "Plan") hadd (by decide +kernel)) fun key => ?_
    have hdone : (m₁.apply (.setId m₀.nextKey "id-0000000c")).1 = .ok .done := by decide +kernel
    rw [hdone]
    exact nofun
  have hlast : m.lastId = 11 := by decide +kernel
  have hnext : m.freshId.2.lastId = 13 := by decide +kernel
  have hfresh : m.freshId.1 = "id-0000000d" := by decide +kernel
  obtain ⟨-, ⟨rounds, number, hsearch, heq, -⟩, -, -, -, -, hhistory⟩ := hm.identifier_made_up
  obtain rfl : number = 13 := by rw [← hnext, heq]
  obtain rfl : rounds = 2 := by
    have hnumber := hsearch.number_eq.1
    omega
  rw [hlast] at hsearch
  obtain ⟨hnodup, hnew⟩ := hhistory ids hissued
  exact ⟨hm, hissued, by decide +kernel, by decide +kernel, hfresh, hsearch, hnodup, hfresh ▸ hnew⟩

end Model

end ModelLabels
