import Mathlib.Logic.Function.Basic
import ModelLabels.Proofs.Integrity.Invariant
import ModelLabels.Proofs.Rekeying.Objects
/-! # Models under other keys

Two models may differ in the keys of their objects, which keep their serial numbers, and so in nothing
but slots.  Whatever is read of one of them is read of the other, under the other keys.  Since different
keys stay different, this holds of all keys, also of those under which there is no object.

* `Model.Rekeyed`: one model is another one under other keys.
* `Rekeyed.get?`, …, `Rekeyed.doomed`: what is read, in the order of the definitions.
-/

namespace ModelLabels.Model
set_option autoImplicit false

variable {σ : Key → Key} {m n p : Model}

/-- One model is another one with other keys for its objects.  Every key keeps its serial number; it
is left open which slots are free. -/
structure Rekeyed (σ : Key → Key) (m n : Model) : Prop where
  injective : Function.Injective σ
  serial : ∀ k, (σ k).serial = k.serial
  entries : n.objects.entries = m.objects.entries.map (Prod.map σ (Object.mapKeys σ))
  links : n.links = m.links.map (Link.mapKeys σ)
  topLevel : n.topLevel = m.topLevel.map (Prod.map (fun t => t) σ)
  rest : { n with objects := m.objects, links := m.links, topLevel := m.topLevel } = m

namespace Rekeyed

theorem refl (m : Model) : m.Rekeyed (fun k => k) m where
  injective _ _ h := h
  serial _ := rfl
  entries := by
    have hsame : Prod.map (fun k => k) (Object.mapKeys fun k => k) = fun e : Key × Object => e :=
      funext fun e => congrArg (Prod.mk e.1) e.2.mapKeys_self
    rw [hsame, List.map_id']
  links := (List.map_id' m.links).symm
  topLevel := (List.map_id' m.topLevel).symm
  rest := rfl

theorem trans {τ : Key → Key} (h : m.Rekeyed σ n) (h' : n.Rekeyed τ p) :
    m.Rekeyed (fun k => τ (σ k)) p where
  injective := h'.injective.comp h.injective
  serial k := (h'.serial (σ k)).trans (h.serial k)
  entries := by
    rw [h'.entries, h.entries, List.map_map]
    exact List.map_congr_left fun e _ => congrArg (Prod.mk _) e.2.mapKeys_mapKeys
  links := by
    rw [h'.links, h.links, List.map_map]
    rfl
  topLevel := by
    rw [h'.topLevel, h.topLevel, List.map_map]
    rfl
  rest := (congrArg (fun q : Model =>
    { q with objects := m.objects, links := m.links, topLevel := m.topLevel }) h'.rest).trans h.rest

variable (h : m.Rekeyed σ n)
include h

/-! ## Objects -/

theorem eq_iff {k l : Key} : σ k = σ l ↔ k = l := h.injective.eq_iff

theorem get? (k : Key) : n.get? (σ k) = (m.get? k).map (·.mapKeys σ) := by
  unfold Model.get? Store.get?
  rw [h.entries, List.find?_map, Option.map_map, Option.map_map]
  refine congrArg (Option.map _) (congrArg (List.find? · _) (funext fun e => ?_))
  exact decide_eq_decide.2 h.eq_iff

theorem keys : n.objects.keys = m.objects.keys.map σ := by
  rw [Store.keys, h.entries, Store.keys, List.map_map, List.map_map]
  rfl

theorem size : n.size = m.size := by
  rw [Model.size, Store.size, h.entries, List.length_map]
  rfl

theorem contains (k : Key) : n.contains (σ k) = m.contains k := by
  show (n.get? (σ k)).isSome = (m.get? k).isSome
  rw [h.get?, Option.isSome_map]

theorem view? (k : Key) : n.view? (σ k) = m.view? k := by
  rw [Model.view?, h.get?, Option.bind_map, Model.view?]
  exact Option.bind_congr fun o _ => o.body.view?_mapKeys

theorem concept? (k : Key) : n.concept? (σ k) = (m.concept? k).map (·.mapKeys σ) := by
  rw [Model.concept?, h.get?, Option.bind_map, Model.concept?, Option.map_bind]
  exact Option.bind_congr fun o _ => o.body.concept?_mapKeys

theorem diagramObject? (k : Key) :
    n.diagramObject? (σ k) = (m.diagramObject? k).map (·.mapKeys σ) := by
  rw [Model.diagramObject?, h.get?, Option.bind_map, Model.diagramObject?, Option.map_bind]
  exact Option.bind_congr fun o _ => o.body.diagramObject?_mapKeys

theorem connection? (k : Key) : n.connection? (σ k) = (m.connection? k).map (·.mapKeys σ) := by
  rw [Model.connection?, h.get?, Option.bind_map, Model.connection?, Option.map_bind]
  exact Option.bind_congr fun o _ => o.body.connection?_mapKeys

theorem owner? (k : Key) : n.owner? (σ k) = (m.owner? k).map σ := by
  rw [Model.owner?, h.get?, Option.bind_map, Model.owner?, Option.map_bind]
  rfl

theorem topLevelFolder? (t : FolderType) :
    n.topLevelFolder? t = (m.topLevelFolder? t).map σ := by
  rw [Model.topLevelFolder?, h.topLevel, List.find?_map, Model.topLevelFolder?, Option.map_map,
    Option.map_map]
  rfl

theorem topLevelKeys : n.topLevelKeys = m.topLevelKeys.map σ := by
  rw [Model.topLevelKeys, h.topLevel, Model.topLevelKeys, List.map_map, List.map_map]
  rfl

/-! ## Neighbours -/

theorem filter_links {f : Link → Bool} {g : Link → Bool} (hfg : ∀ l, g (l.mapKeys σ) = f l) :
    n.links.filter g = (m.links.filter f).map (Link.mapKeys σ) := by
  rw [h.links, List.filter_map]
  exact congrArg (List.map _) (List.filter_congr fun l _ => hfg l)

/-- The links of a kind that have a key at one end, by what is at their other end. -/
theorem map_filter_links {near far : Link → Key} (hnear : ∀ l, near (l.mapKeys σ) = σ (near l))
    (hfar : ∀ l, far (l.mapKeys σ) = σ (far l)) (kind : LinkKind) (k : Key) :
    (n.links.filter fun l => l.kind = kind ∧ near l = σ k).map far =
      ((m.links.filter fun l => l.kind = kind ∧ near l = k).map far).map σ := by
  rw [h.filter_links (f := fun l => l.kind = kind ∧ near l = k), List.map_map, List.map_map]
  · exact List.map_congr_left fun l _ => hfar l
  · intro l
    rw [hnear]
    exact decide_eq_decide.2 (and_congr_right fun _ => h.eq_iff)

theorem outgoing (kind : LinkKind) (k : Key) :
    n.outgoing kind (σ k) = (m.outgoing kind k).map σ := by
  rw [Model.outgoing, h.contains, Model.outgoing]
  split
  · exact h.map_filter_links (fun _ => rfl) (fun _ => rfl) kind k
  · rfl

theorem incoming (kind : LinkKind) (k : Key) :
    n.incoming kind (σ k) = (m.incoming kind k).map σ := by
  rw [Model.incoming, h.contains, Model.incoming]
  split
  · exact h.map_filter_links (fun _ => rfl) (fun _ => rfl) kind k
  · rfl

theorem isConnection (k : Key) : n.isConnection (σ k) = m.isConnection k := by
  rw [Model.isConnection, h.connection?, Option.isSome_map, Model.isConnection]

theorem children (k : Key) : n.children (σ k) = (m.children k).map σ := by
  rw [Model.children, h.outgoing, List.filter_map, Model.children]
  exact congrArg (List.map σ) (List.filter_congr fun c _ => congrArg not (h.isConnection c))

theorem filter_isConnection (ks : List Key) :
    (ks.map σ).filter n.isConnection = (ks.filter m.isConnection).map σ := by
  rw [List.filter_map]
  exact congrArg (List.map σ) (List.filter_congr fun c _ => h.isConnection c)

theorem viewConnections (k : Key) : n.viewConnections (σ k) = (m.viewConnections k).map σ := by
  rw [Model.viewConnections, h.view?, h.outgoing, h.filter_isConnection, Model.viewConnections]
  split <;> rfl

theorem attached (kind : LinkKind) (k : Key) :
    n.attached kind (σ k) = (m.attached kind k).map σ := by
  rw [Model.attached, h.incoming, h.filter_isConnection, Model.attached]

/-! ## Traversal -/

theorem walkFrom (depth : Nat) (k : Key) :
    n.walkFrom depth (σ k) = (m.walkFrom depth k).map σ := by
  induction depth generalizing k with
  | zero => rfl
  | succ depth ih =>
    have hchildren := h.children k
    rw [Model.children, Model.children] at hchildren
    simp only [Model.walkFrom, List.map_cons, List.map_append, List.map_flatMap]
    rw [hchildren, List.flatMap_map, h.outgoing, h.filter_isConnection]
    simp only [ih]

theorem walk : n.walk = m.walk.map σ := by
  rw [Model.walk, h.topLevelKeys, h.size, List.flatMap_map, Model.walk, List.map_flatMap]
  exact congrArg (List.flatMap · _) (funext (h.walkFrom _))

theorem isAmongOwners (ancestor : Key) (steps : Nat) (k : Key) :
    n.isAmongOwners (σ ancestor) steps (σ k) = m.isAmongOwners ancestor steps k := by
  induction steps generalizing k with
  | zero => rfl
  | succ steps ih =>
    rw [Model.isAmongOwners, Model.isAmongOwners, h.owner?]
    simp only [h.eq_iff]
    cases m.owner? k with
    | none => rfl
    | some owner =>
      simp only [Option.map_some]
      rw [ih]

theorem isWithin (k ancestor : Key) : n.isWithin (σ k) (σ ancestor) = m.isWithin k ancestor := by
  rw [Model.isWithin, h.size, h.isAmongOwners, Model.isWithin]

/-! ## What depends on an object -/

theorem connectionsAt (k : Key) : n.connectionsAt (σ k) = (m.connectionsAt k).map σ := by
  unfold Model.connectionsAt
  have hdrawn : (n.get? (σ k)).bind (·.drawnOn?) = ((m.get? k).bind (·.drawnOn?)).map σ := by
    rw [h.get?, Option.bind_map, Option.map_bind]
    exact Option.bind_congr fun o _ => o.drawnOn?_mapKeys
  rw [hdrawn]
  cases (m.get? k).bind (·.drawnOn?) with
  | none => rfl
  | some view =>
    simp only [Option.map_some, h.viewConnections, List.filter_map]
    refine congrArg (List.map σ) (List.filter_congr fun c _ => ?_)
    rw [Function.comp_apply, h.connection?]
    cases m.connection? c with
    | none => rfl
    | some connection => simp only [Option.map_some, Connection.mapKeys, h.eq_iff]

theorem dependents (k : Key) : n.dependents (σ k) = (m.dependents k).map σ := by
  simp only [Model.dependents, h.outgoing, h.incoming, h.connectionsAt, List.map_append]

theorem close (pending found : List Key) :
    n.close (pending.map σ) (found.map σ) = (m.close pending found).map σ := by
  fun_induction m.close pending found with
  | case1 found => rw [List.map_nil, Model.close]
  | case2 found k rest hk ih =>
    have hlive : n.contains (σ k) = true ∧ σ k ∉ found.map σ := by
      rwa [h.contains, List.mem_map_of_injective h.injective]
    rw [List.map_cons, Model.close, dif_pos hlive, h.dependents, ← List.map_append, ← List.map_cons,
      ih]
  | case3 found k rest hk ih =>
    have hnot : ¬ (n.contains (σ k) = true ∧ σ k ∉ found.map σ) := by
      rwa [h.contains, List.mem_map_of_injective h.injective]
    rw [List.map_cons, Model.close, dif_neg hnot, ih]

theorem doomed (k : Key) : n.doomed (σ k) = (m.doomed k).map σ := h.close [k] []

end Rekeyed

end ModelLabels.Model
