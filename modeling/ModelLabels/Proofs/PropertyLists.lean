import ModelLabels.Proofs.Addition
/-! # Lists of properties

In every reachable model the keys of a list of properties are different, in the list of the model itself and
in those of its folders, concepts and views.  A step keeps a list or sets one key in it: an existing key keeps
its place, and a new one comes last.

* `Properties.IsSet`, `Properties.Step`: a list in which a key was set; a list before and after a step.
* `Model.ListsStep`: all lists before and after a step; `Step.lists`.
* `Reachable.propertyKeys_nodup`: the keys of a list are different.
-/

namespace ModelLabels
set_option autoImplicit false

/-! ## One list -/

namespace Properties
variable {key value : String} {ps qs : Properties}

/-- A list before and after a key is set. -/
inductive IsSet (key value : String) : Properties → Properties → Prop where
  | replaced {before after : Properties} {old : String} (h : key ∉ before.keys) :
      IsSet key value (before ++ ⟨key, old⟩ :: after) (before ++ ⟨key, value⟩ :: after)
  | added {ps : Properties} (h : key ∉ ps.keys) : IsSet key value ps (ps ++ [⟨key, value⟩])

theorem IsSet.cons (h : IsSet key value ps qs) {p : Property} (hp : p.key ≠ key) :
    IsSet key value (p :: ps) (p :: qs) := by
  have hcons {rest : Properties} (hrest : key ∉ rest.keys) : key ∉ Properties.keys (p :: rest) := by
    rw [keys, List.map_cons, List.mem_cons, not_or]
    exact ⟨hp.symm, hrest⟩
  cases h with
  | replaced hbefore => exact .replaced (hcons hbefore)
  | added hps => exact .added (hcons hps)

theorem isSet_set (ps : Properties) (key value : String) : IsSet key value ps (ps.set key value) := by
  induction ps with
  | nil => exact .added List.not_mem_nil
  | cons p rest ih =>
    unfold set
    split
    · rename_i hp
      obtain ⟨other, old⟩ := p
      obtain rfl : key = other := hp.symm
      have hreplaced : IsSet key value ([] ++ ⟨key, old⟩ :: rest) ([] ++ ⟨key, value⟩ :: rest) :=
        .replaced List.not_mem_nil
      exact hreplaced
    · rename_i hp
      exact ih.cons hp

theorem IsSet.nodup (h : IsSet key value ps qs) (hps : ps.keys.Nodup) : qs.keys.Nodup := by
  cases h with
  | replaced _ => simpa [keys] using hps
  | added hnew =>
    rw [keys, List.map_append, List.nodup_append']
    refine ⟨hps, List.nodup_singleton _, fun k hk hk' => ?_⟩
    rw [List.mem_singleton.1 hk'] at hk
    exact hnew hk

/-- A list before and after a step. -/
def Step (ps qs : Properties) : Prop := qs = ps ∨ ∃ key value, IsSet key value ps qs

theorem Step.refl (ps : Properties) : ps.Step ps := .inl rfl

theorem Step.nodup (h : ps.Step qs) (hps : ps.keys.Nodup) : qs.keys.Nodup := by
  rcases h with rfl | ⟨key, value, hset⟩
  · exact hps
  · exact hset.nodup hps

end Properties

/-! ## The lists of objects -/

namespace Body
variable {b c : Body}

/-- The properties of an object's own. -/
def properties? : Body → Option Properties
  | folder f => some f.properties
  | concept c => some c.properties
  | view v => some v.properties
  | diagramObject _ | connection _ => none

theorem properties?_of_mapCaption? {f : Caption → Caption} (h : b.mapCaption? f = some c) :
    c.properties? = b.properties? := by
  cases b with
  | diagramObject d =>
    obtain ⟨shows, view⟩ := d
    cases shows <;> cases h
    rfl
  | _ => cases h; rfl

theorem properties?_of_withContent? {content : String} (h : b.withContent? content = some c) :
    c.properties? = b.properties? := by
  cases b with
  | diagramObject d =>
    obtain ⟨shows, view⟩ := d
    cases shows <;> cases h
    rfl
  | _ => cases h

theorem properties?_withConnected (b : Body) (isConnected : Bool) :
    (b.withConnected isConnected).properties? = b.properties? := by
  cases b <;> rfl

theorem properties?_of_mapProperties? {f : Properties → Properties}
    (h : b.mapProperties? f = some c) :
    ∃ ps, b.properties? = some ps ∧ c.properties? = some (f ps) := by
  cases b <;> cases h <;> exact ⟨_, rfl, rfl⟩

theorem isSome_mapProperties? (b : Body) (f : Properties → Properties) :
    (b.mapProperties? f).isSome = b.properties?.isSome := by
  cases b <;> rfl

/-- The properties of an object before and after a step. -/
def ListStep (b c : Body) : Prop :=
  ∀ ps, c.properties? = some ps → ∃ qs, b.properties? = some qs ∧ qs.Step ps

theorem ListStep.of_eq (h : c.properties? = b.properties?) : b.ListStep c :=
  fun ps hps => ⟨ps, h ▸ hps, .refl ps⟩

theorem ListStep.set {key value : String} (h : b.mapProperties? (·.set key value) = some c) :
    b.ListStep c := by
  obtain ⟨qs, hb, hc⟩ := properties?_of_mapProperties? h
  intro ps hps
  rw [hc] at hps
  cases hps
  exact ⟨qs, hb, .inr ⟨key, value, Properties.isSet_set qs key value⟩⟩

end Body

/-- What is added has no properties yet. -/
theorem Operation.properties?_of_addition? {m : Model} {op : Operation} {p : Key} {b : Body}
    (h : op.addition? m = some (p, b)) : b.properties?.getD [] = [] := by
  have hmap {α : Type} {x : Option α} {f : α → Key × Body} (hx : x.map f = some (p, b))
      (hf : ∀ a, (f a).2.properties?.getD [] = []) : b.properties?.getD [] = [] := by
    obtain ⟨a, -, ha⟩ := Option.map_eq_some_iff.1 hx
    have hnone := hf a
    rwa [ha] at hnone
  cases op with
  | addFolder parent name => exact hmap h fun _ => rfl
  | addElement type name => exact hmap h fun _ => rfl
  | addElementIn folder type name => cases h; rfl
  | addRelationship type source target => exact hmap h fun _ => rfl
  | addRelationshipIn folder type source target => cases h; rfl
  | addView name => exact hmap h fun _ => rfl
  | addViewIn folder name => cases h; rfl
  | addElementObject container concept => exact hmap h fun _ => rfl
  | addNote container content => exact hmap h fun _ => rfl
  | addGroup container name => exact hmap h fun _ => rfl
  | addReference container view => exact hmap h fun _ => rfl
  | addConnection source target => exact hmap h fun _ => rfl
  | addRelationshipConnection relationship source target => exact hmap h fun _ => rfl
  | _ => cases h

namespace Model
variable {m n : Model} {k t : Key} {o : Object} {b : Body}

/-- The properties of the object under a key, where it has any of its own. -/
def properties? (m : Model) (k : Key) : Option Properties := (m.get? k).bind (·.body.properties?)

theorem properties?_of_get? (ho : m.get? k = some o) : m.properties? k = o.body.properties? := by
  rw [properties?, ho, Option.bind_some]

theorem get?_of_properties? {ps : Properties} (h : m.properties? k = some ps) :
    ∃ o, m.get? k = some o ∧ o.body.properties? = some ps := Option.bind_eq_some_iff.1 h

/-! ## Steps -/

/-- All lists of properties before and after a step. -/
structure ListsStep (m n : Model) : Prop where
  model : m.properties.Step n.properties
  objects : ∀ k ps, n.properties? k = some ps →
    (∃ qs, m.properties? k = some qs ∧ qs.Step ps) ∨ m.contains k = false ∧ ps = []

namespace ListsStep

theorem of_described (hobjects : n.objects = m.objects) (h : m.properties.Step n.properties) :
    m.ListsStep n := by
  refine ⟨h, fun k ps hps => .inl ⟨ps, ?_, .refl ps⟩⟩
  rwa [properties?, get?, hobjects] at hps

theorem refl (m : Model) : m.ListsStep m := of_described rfl (.refl _)

theorem updated {f : Object → Object} (ho : m.get? t = some o)
    (hobjects : n.objects = m.objects.update t f) (hb : o.body.ListStep (f o).body)
    (h : n.properties = m.properties) : m.ListsStep n := by
  refine ⟨.inl h, fun k ps hps => .inl ?_⟩
  have hget := get?_of_objects_eq ho hobjects k
  by_cases hk : k = t
  · rw [properties?_of_get? (hget.trans (if_pos hk))] at hps
    obtain ⟨qs, hqs, hstep⟩ := hb ps hps
    exact ⟨qs, hk ▸ (properties?_of_get? ho).trans hqs, hstep⟩
  · rw [properties?, hget, if_neg hk] at hps
    exact ⟨ps, hps, .refl ps⟩

theorem cleared (m : Model) (ks : List Key) : m.ListsStep (m.cleared ks) := by
  have herase (m : Model) (k : Key) : (m.erase k).properties = m.properties := by
    unfold erase
    cases m.get? k <;> rfl
  have hown : (m.cleared ks).properties = m.properties :=
    foldl_erase_eq (f := fun m => m.properties) herase ks m
  refine ⟨.inl hown, fun k ps hps => .inl ⟨ps, ?_, .refl ps⟩⟩
  rw [properties?, get?_cleared] at hps
  split at hps
  · cases hps
  · exact hps

theorem inserted (hm : m.objects.Sound) (owner : Option Key)
    (hb : b.properties?.getD [] = []) : m.ListsStep (m.inserted owner b) := by
  refine ⟨.refl _, fun k ps hps => ?_⟩
  have hget := get?_inserted hm owner b k
  by_cases hk : k = m.nextKey
  · rw [properties?_of_get? (hget.trans (if_pos hk))] at hps
    rw [hps] at hb
    exact .inr ⟨hk ▸ not_contains_nextKey hm, hb⟩
  · rw [properties?, hget, if_neg hk] at hps
    exact .inl ⟨ps, hps, .refl ps⟩

end ListsStep

theorem lists_of_revise {expected : Requirement} {change? : Body → Option Body}
    (h : Edit.revise k expected change? m = .ok () n)
    (hb : ∀ b c, change? b = some c → b.ListStep c) : m.ListsStep n := by
  rw [Edit.revise_apply] at h
  obtain ⟨⟨o, b⟩, ha, hn⟩ := Edit.commit_eq_ok.1 h
  obtain ⟨ho, hc⟩ := requirePart_eq_ok.1 ha
  cases hn
  exact .updated (f := fun o => { o with body := b }) ho rfl (hb _ _ hc) rfl

end Model

theorem Operation.lists_of_run {m n : Model} (hm : m.objects.Sound) {op : Operation} {answer : Answer}
    (h : op.run m = .ok answer n) : m.ListsStep n := by
  -- An effect does not say which texts of an object changed, so the operations are taken one by one.
  by_cases hop : op.isAddition = true
  · obtain ⟨p, b, hb, -, rfl⟩ := added_of_run hop h
    have hinserted := Model.ListsStep.inserted hm (some p) (properties?_of_addition? hb)
    exact ⟨hinserted.model, hinserted.objects⟩
  have hconnected {key : Key} {o : Object} {n : Model} (ho : m.get? key = some o) (isConnected : Bool)
      (hobjects : n.objects = m.objects.update key fun o =>
        { o with body := o.body.withConnected isConnected })
      (hown : n.properties = m.properties) : m.ListsStep n :=
    .updated ho hobjects (.of_eq (o.body.properties?_withConnected isConnected)) hown
  cases op with
  | disconnect key =>
    obtain ⟨_, hk, -⟩ := map_eq_ok h
    rw [Edit.disconnect_apply] at hk
    obtain ⟨⟨o, c⟩, ha, hn⟩ := Edit.commit_eq_ok.1 hk
    obtain ⟨ho, -⟩ := Model.requirePart_eq_ok.1 ha
    cases hn
    by_cases hc : c.isConnected
    · rw [if_pos hc]
      exact hconnected ho false rfl rfl
    · rw [if_neg hc]
      exact .refl m
  | reconnect key =>
    obtain ⟨_, hk, -⟩ := map_eq_ok h
    rw [Edit.reconnect_apply] at hk
    obtain ⟨c, ha, hn⟩ := Edit.commit_eq_ok.1 hk
    obtain ⟨⟨o, _⟩, ha, -⟩ := bind_eq_ok.1 ha
    obtain ⟨ho, -⟩ := Model.requirePart_eq_ok.1 ha
    cases hn
    by_cases hc : c.isConnected
    · rw [if_pos hc]
      exact .refl m
    · rw [if_neg hc]
      exact hconnected ho true rfl rfl
  | setName key name =>
    obtain ⟨_, hk, -⟩ := map_eq_ok h
    obtain ⟨owner, -, hk⟩ := Edit.check_bind_eq_ok.1 hk
    exact Model.lists_of_revise hk fun _ _ hb => .of_eq (Body.properties?_of_mapCaption? hb)
  | setDocumentation key documentation =>
    obtain ⟨_, hk, -⟩ := map_eq_ok h
    obtain ⟨owner, -, hk⟩ := Edit.check_bind_eq_ok.1 hk
    exact Model.lists_of_revise hk fun _ _ hb => .of_eq (Body.properties?_of_mapCaption? hb)
  | setProperty key property value =>
    obtain ⟨_, hk, -⟩ := map_eq_ok h
    obtain ⟨owner, -, hk⟩ := Edit.check_bind_eq_ok.1 hk
    exact Model.lists_of_revise hk fun _ _ => .set
  | setContent key content =>
    obtain ⟨_, hk, -⟩ := map_eq_ok h
    exact Model.lists_of_revise hk fun _ _ hb => .of_eq (Body.properties?_of_withContent? hb)
  | setId key id =>
    obtain ⟨_, hk, -⟩ := map_eq_ok h
    rw [Edit.setId_apply] at hk
    obtain ⟨o, ha, hn⟩ := Edit.commit_eq_ok.1 hk
    obtain ⟨-, ha⟩ := throw_ite_eq_ok.1 ha
    obtain ⟨p, hp, -⟩ := bind_eq_ok.1 ha
    cases hn
    by_cases hid : o.id = id
    · rw [if_pos hid]
      exact .refl m
    · rw [if_neg hid]
      exact .updated (f := fun o => { o with id }) (Model.require_eq_ok.1 hp) rfl (.of_eq rfl) rfl
  | moveTo key parent =>
    obtain ⟨_, hk, -⟩ := map_eq_ok h
    rw [Edit.moveTo_apply] at hk
    obtain ⟨a, ha, hn⟩ := Edit.commit_eq_ok.1 hk
    obtain ⟨o, ho, -⟩ := Model.of_checkMove ha
    cases hn
    exact .updated (f := fun o => { o with owner := some parent }) ho rfl (.of_eq rfl) rfl
  | remove key =>
    obtain ⟨count, hk, -⟩ := map_eq_ok h
    rw [Edit.remove_apply] at hk
    obtain ⟨a, -, hn⟩ := Edit.commit_eq_ok.1 hk
    cases hn
    exact .cleared m _
  | rename name =>
    cases h
    exact .of_described rfl (.refl _)
  | setModelDocumentation documentation =>
    cases h
    exact .of_described rfl (.refl _)
  | setModelProperty property value =>
    cases h
    exact .of_described rfl (.inr ⟨property, value, Properties.isSet_set _ property value⟩)
  | _ => exact absurd rfl hop

namespace Model
variable {m n : Model}

theorem Step.lists (h : m.Step n) (hm : m.objects.Sound) : m.ListsStep n := by
  cases h with
  | apply op =>
    unfold Model.apply
    cases hrun : op.run m with
    | ok answer n => exact op.lists_of_run hm hrun
    | error e n =>
      rw [op.isAtomic_run m n e hrun]
      exact .refl m
  | clear _ _ _ => exact .cleared m _

/-! ## Reachable states -/

/-- No list of properties has two with the same key. -/
structure PropertyKeysUnique (m : Model) : Prop where
  model : m.properties.keys.Nodup
  objects : ∀ k ps, m.properties? k = some ps → ps.keys.Nodup

theorem ListsStep.unique (h : m.ListsStep n) (hm : m.PropertyKeysUnique) : n.PropertyKeysUnique := by
  refine ⟨h.model.nodup hm.model, fun k ps hps => ?_⟩
  rcases h.objects k ps hps with ⟨qs, hqs, hstep⟩ | ⟨-, rfl⟩
  · exact hstep.nodup (hm.objects k qs hqs)
  · exact List.nodup_nil

theorem propertyKeysUnique_new (instanceNumber : Nat) (name : String) :
    (new instanceNumber name).PropertyKeysUnique := by
  have hfold (ts : List FolderType) (hts : ∀ t ∈ ts, t ≠ .user) (m : Model) (h : m.Sound)
      (hm : m.PropertyKeysUnique) : (ts.foldl addTopLevel m).PropertyKeysUnique := by
    induction ts generalizing m with
    | nil => exact hm
    | cons t ts ih =>
      refine ih (fun u hu => hts u (List.mem_cons_of_mem _ hu)) _
        (h.addTopLevel (hts t List.mem_cons_self)) ?_
      rw [addTopLevel_eq]
      have hinserted : m.ListsStep (m.inserted none (.folder ⟨.named t.defaultName, t, t⟩)) :=
        .inserted h.slots none rfl
      have hadded := hinserted.unique hm
      exact ⟨hadded.model, hadded.objects⟩
  refine hfold _ (fun t ht => FolderType.mem_topLevel.1 ht) _ (sound_blank instanceNumber name) ?_
  refine ⟨List.nodup_nil, fun k ps hps => ?_⟩
  obtain ⟨o, ho, -⟩ := get?_of_properties? hps
  cases ho

theorem Reachable.propertyKeys_nodup (h : m.Reachable) : m.PropertyKeysUnique := by
  induction h with
  | new instanceNumber name => exact propertyKeysUnique_new instanceNumber name
  | copy instanceNumber _ ih => exact ⟨ih.model, ih.objects⟩
  | step h hs ih => exact (hs.lists h.sound.slots).unique ih

end Model
end ModelLabels
