import ModelLabels.Proofs.DescribedLabels
import ModelLabels.Proofs.PropertyLists
/-! # Properties are read as they were set

A property is set where an object keeps its properties, which need not be the object itself, and read from the
object that another one speaks for.  The first property with the key is the one that is set and the one that is
read, and the keys of a list are different, so that properties are a map from keys to values.

* `Body.rewritten_of_mapProperties?`: what is read of an object after a key was set.
* `Model.TakesProperties`: whether a property can be set; `Consistent.exists_holder`: where.
* `Model.PropertySet`: what setting a property does; `Reachable.property_read_as_set`: the property.
-/

namespace ModelLabels
set_option autoImplicit false

/-! ## What is read of an object -/

section Bodies
variable {b b' : Body} {key value : String}

theorem Subject.ofBody?_of_mapProperties? {f : Properties → Properties}
    (h : b.mapProperties? f = some b') (m n : Model) : ∃ s ps, s.properties? = some ps ∧
      ofBody? m b = some s ∧ ofBody? n b' = some { s with properties? := some (f ps) } := by
  cases b with
  | folder g => cases h; exact ⟨_, g.properties, rfl, rfl, rfl⟩
  | concept c => cases h; exact ⟨_, c.properties, rfl, rfl, rfl⟩
  | view v => cases h; exact ⟨_, v.properties, rfl, rfl, rfl⟩
  | diagramObject d => cases h
  | connection c => cases h

theorem attributeText?_setProperty (m : Model) (target : Target) {s : Subject} {ps : Properties}
    (hs : s.properties? = some ps) (attr : Attribute) :
    attributeText? m target { s with properties? := some (ps.set key value) } attr =
      if attr = .property key then some value else attributeText? m target s attr := by
  cases attr with
  | property other =>
    by_cases hother : other = key
    · rw [if_pos (congrArg _ hother), hother]
      exact Properties.get?_set_self ps key value
    · rw [if_neg fun heq => hother (Attribute.property.inj heq)]
      show Properties.get? (ps.set key value) other = s.properties?.bind (·.get? other)
      rw [Properties.get?_set_of_ne hother, hs]
      rfl
  | _ => rfl

theorem Body.speaksFor_of_properties? {ps : Properties} (h : b.properties? = some ps) (k : Key) :
    b.speaksFor k = k := by
  cases b <;> cases h <;> rfl

theorem Body.rewritten_of_mapProperties? (h : b.mapProperties? (·.set key value) = some b') :
    b.Rewritten (.property key) value b' where
  speaksFor k := by
    obtain ⟨ps, hb, hb'⟩ := properties?_of_mapProperties? h
    rw [speaksFor_of_properties? hb, speaksFor_of_properties? hb']
  subject _ m n := by
    obtain ⟨s, ps, hs, hm, hn⟩ := Subject.ofBody?_of_mapProperties? h m n
    exact ⟨s, _, hm, hn, fun target => attributeText?_setProperty m target hs⟩

end Bodies

namespace Model
variable {m n : Model} {k t : Key} {o : Object} {b : Body} {key value : String}

/-! ## Where a property is set -/

/-- Whether a property can be set through an object: what it speaks for keeps properties, and it is no
connection that draws a relationship. -/
def TakesProperties (m : Model) (k : Key) : Prop :=
  m.drawnRelationship? k = none ∧ (m.properties? (m.speaksFor k)).isSome = true

/-- Where a property is set is there; it is what the object speaks for, if it keeps properties at all. -/
theorem Consistent.exists_holder (h : m.Consistent) (hk : m.contains k = true) :
    ∃ t o, m.describedBy k = .ok t ∧ m.get? t = some o ∧
      (o.body.properties?.isSome = true ↔ m.TakesProperties k) ∧
      (o.body.properties?.isSome = true → t = m.speaksFor k) := by
  obtain ⟨p, hp⟩ := contains_iff_get?.1 hk
  have hdescribed := describedBy_eq hp
  by_cases hd : m.drawnRelationship? k = none
  · rw [if_pos hd] at hdescribed
    obtain ⟨o, ho, -, -⟩ := h.subject_eq hp
    refine ⟨_, o, hdescribed, ho, ?_, fun _ => rfl⟩
    rw [TakesProperties, properties?_of_get? ho]
    exact ⟨fun hsome => ⟨hd, hsome⟩, And.right⟩
  · -- What draws a relationship is described by itself, and a connection keeps no properties.
    rw [if_neg hd] at hdescribed
    obtain ⟨c, hc⟩ := exists_connection_of_drawn hp hd
    have hnone : p.body.properties? = none := by
      rw [hc]
      rfl
    refine ⟨k, p, hdescribed, hp, ?_⟩
    rw [hnone]
    exact ⟨⟨nofun, fun htakes => absurd htakes.1 hd⟩, nofun⟩

theorem apply_setProperty_of_missing (hk : m.get? k = none) (key value : String) :
    m.apply (.setProperty k key value) = (.error (.unknownKey k), m) := by
  have hdescribed : m.describedBy k = .error (.unknownKey k) := by rw [describedBy, require, hk]
  rw [apply, Operation.run, Edit.map_apply, Edit.setProperty, Edit.bind_apply, Edit.check_apply,
    hdescribed]

/-! ## The property -/

/-- The value of a property is read of all that speak for the same as the object it was set to.  Nothing else
is read in another way, and no other list of properties changes. -/
structure PropertySet (m : Model) (k : Key) (key value : String) (n : Model) : Prop where
  live : m.contains k = true ∧ ∀ x, n.contains x = m.contains x
  attributes : ∀ x, m.contains x = true → ∀ attr, renderAttribute n (.object x) attr =
    if attr = .property key ∧ m.speaksFor x = m.speaksFor k then value
    else renderAttribute m (.object x) attr
  ownAttributes : ∀ attr, renderAttribute n .model attr = renderAttribute m .model attr
  list : ∃ ps qs, m.properties? (m.speaksFor k) = some ps ∧ n.properties? (m.speaksFor k) = some qs ∧
    Properties.IsSet key value ps qs
  others : n.properties = m.properties ∧ ∀ x, x ≠ m.speaksFor k → n.properties? x = m.properties? x

theorem Consistent.propertySet_update (h : m.Consistent) (hk : m.contains k = true)
    (ho : m.get? (m.speaksFor k) = some o)
    (hb : o.body.mapProperties? (·.set key value) = some b)
    (hn : (m.update (m.speaksFor k) fun o => { o with body := b }).Consistent) :
    m.PropertySet k key value (m.update (m.speaksFor k) fun o => { o with body := b }) := by
  have hget := get?_update_of_get? ho fun o => { o with body := b }
  obtain ⟨ps, hps, hqs⟩ := Body.properties?_of_mapProperties? hb
  exact {
    live := ⟨hk, contains_update m _ _⟩
    attributes := fun x hx =>
      h.renderAttribute_update ho (Body.rewritten_of_mapProperties? hb) hn hx
    ownAttributes := fun attr => by cases attr <;> rfl
    list := ⟨ps, _, (properties?_of_get? ho).trans hps,
      (properties?_of_get? ((hget _).trans (if_pos rfl))).trans hqs, Properties.isSet_set ps key value⟩
    others := ⟨rfl, fun x hx => by rw [properties?, hget, if_neg hx, properties?]⟩ }

theorem Consistent.setProperty_exact (h : m.Consistent) {written : _ × Model}
    (hwritten : m.apply (.setProperty k key value) = written) (hn : written.2.Consistent) :
    (written.1 = .ok .done ↔ m.TakesProperties k) ∧
      (written.1 = .ok .done → m.PropertySet k key value written.2) := by
  cases hk : m.get? k with
  | none =>
    rw [apply_setProperty_of_missing hk] at hwritten
    subst hwritten
    have hself : m.speaksFor k = k := by
      rw [speaksFor, hk]
      rfl
    refine ⟨⟨fun hdone => ?_, fun htakes => ?_⟩, fun hdone => ?_⟩
    · cases hdone
    · have hlist := htakes.2
      rw [hself, properties?, hk] at hlist
      cases hlist
    · cases hdone
  | some p =>
    have hk := contains_of_get? hk
    obtain ⟨t, o, ht, ho, htakes, hholder⟩ := h.exists_holder hk
    have happly : m.apply (.setProperty k key value) = _ := apply_of_revise rfl ht ho
    rw [hwritten] at happly
    have hsome := o.body.isSome_mapProperties? (·.set key value)
    rw [← hsome] at htakes hholder
    cases hb : o.body.mapProperties? (·.set key value) with
    | none =>
      rw [hb] at happly htakes
      subst happly
      refine ⟨⟨fun hdone => ?_, fun hlist => ?_⟩, fun hdone => ?_⟩
      · cases hdone
      · cases htakes.2 hlist
      · cases hdone
    | some b =>
      rw [hb] at happly htakes hholder
      obtain rfl := hholder rfl
      subst happly
      exact ⟨⟨fun _ => htakes.1 rfl, fun _ => rfl⟩, fun _ => h.propertySet_update hk ho hb hn⟩

/-- In every reachable model the keys of each list of properties are different, and each step keeps a list or
sets one key in it.  A property can be set where there is a list, and is then read of all that stand for the
same. -/
theorem Reachable.property_read_as_set (h : m.Reachable) :
    m.PropertyKeysUnique ∧ (∀ n, m.Step n → m.ListsStep n) ∧ ∀ k key value,
      let written := m.apply (.setProperty k key value)
      (written.1 = .ok .done ↔ m.TakesProperties k) ∧
        (written.1 = .ok .done → m.PropertySet k key value written.2) := by
  refine ⟨h.propertyKeys_nodup, fun n hs => hs.lists h.sound.slots, fun k key value => ?_⟩
  exact h.sound.toConsistent.setProperty_exact rfl (Reachable.step h (.apply _)).sound.toConsistent

/-- A property that is set again through the box that shows an element. -/
theorem property_read_as_set_shown :
    let plan := new 1 "Plan"
    let actor := plan.nextKey
    let drafted := (plan.apply (.addElement .businessActor "Buyer")).2
    let view := drafted.nextKey
    let drawn := (drafted.apply (.addView "Main")).2
    let box := drawn.nextKey
    let shown := (drawn.apply (.addElementObject view actor)).2
    let owned := (shown.apply (.setProperty actor "owner" "Ann")).2
    let m := (owned.apply (.setProperty actor "cost" "5")).2
    let written := m.apply (.setProperty box "owner" "Bob")
    m.Reachable ∧ written.1 = .ok .done ∧
      renderAttribute written.2 (.object actor) (.property "owner") = "Bob" ∧
      renderAttribute written.2 (.object box) (.property "cost") = "5" ∧
      written.2.properties? actor = some [⟨"owner", "Bob"⟩, ⟨"cost", "5"⟩] := by
  intro plan actor drafted view drawn box shown owned m written
  have hm : m.Reachable := .step (.step (.step (.step (.step (.new 1 "Plan") (.apply _)) (.apply _))
    (.apply _)) (.apply _)) (.apply _)
  obtain ⟨-, -, hset⟩ := hm.property_read_as_set
  obtain ⟨hanswer, hwritten⟩ := hset box "owner" "Bob"
  have hdone : written.1 = .ok .done := hanswer.2 ⟨by decide +kernel, by decide +kernel⟩
  have hattributes := (hwritten hdone).attributes
  have hactor := hattributes actor (by decide +kernel) (.property "owner")
  have hbox := hattributes box (by decide +kernel) (.property "cost")
  have hsame : m.speaksFor actor = m.speaksFor box := by decide +kernel
  refine ⟨hm, hdone, hactor.trans (if_pos ⟨rfl, hsame⟩), ?_, by decide +kernel⟩
  rw [hbox, if_neg fun hboth => absurd hboth.1 (by decide)]
  decide +kernel

end Model
end ModelLabels
