import ModelLabels.Proofs.IdentifierIndex
/-! # Labels do not depend on what was rendered before

A renderer keeps templates by their text, and a snapshot of one model by its stamp.  Whatever was
rendered with it, of whichever models and however these were changed in between, it answers like a
renderer that is new; and it never keeps more templates than there is room for.

* `RenderConfig.room`: how many templates are kept; `Renderer.room_remember`.
* `Renderer.Steady`: what comes to the same with every renderer that may be used with a model, and
  leaves one that may be used as before.
* `LabelSession`: models and one renderer; `LabelSession.Sound`: what every step of a session
  preserves.
* `LabelSession.ask_eq_ask_new`: the property.
-/

namespace ModelLabels
set_option autoImplicit false

/-- How many templates a renderer may keep.  The one that was read last is kept even where there is room
for none. -/
def RenderConfig.room (config : RenderConfig) : Nat :=
  if config.cacheTemplates then max 1 config.cacheCapacity else 0

namespace Renderer
variable {m : Model} {r : Renderer}

/-! ## Calls -/

/-- What a renderer can be asked for. -/
inductive Call where
  /-- The label of a text for a root. -/
  | label (root : Target) (text : String)
  /-- The label of a text for the object with an identifier. -/
  | labelOf (id text : String)

namespace Call

def Answer : Call → Type
  | label _ _ => String
  | labelOf _ _ => Option String

def ask (m : Model) : (c : Call) → StateM Renderer c.Answer
  | label root text => render m root text
  | labelOf id text => renderId m id text

end Call

/-! ## Answers that all renderers give -/

theorem room_remember (hon : r.config.cacheTemplates = true) (text : String) (t : Template) :
    (r.remember text t).cachedTemplates ≤ r.config.room := by
  have hroom : r.config.room = max 1 r.config.cacheCapacity := if_pos hon
  show Std.HashMap.size (Std.HashMap.insert _ text t) ≤ r.config.room
  rw [hroom]
  split
  · exact Std.HashMap.size_insert_le.trans (Nat.le_max_left _ _)
  · refine Std.HashMap.size_insert_le.trans ?_
    omega

/-- A renderer after it was used with a model. -/
structure Follows (m : Model) (r r' : Renderer) : Prop where
  index : r'.index = r.index ∨ r'.index = (GraphIndex.read m r.index).2
  config : r'.config = r.config
  cached : ∀ text t, r'.cache[text]? = some t → t = Template.ofString text
  room : r.cachedTemplates ≤ r.config.room → r'.cachedTemplates ≤ r.config.room

theorem Serves.of_follows {r' : Renderer} (h : r.Serves m) (hr : Follows m r r') : r'.Serves m where
  index := h.index.of_eq_or_read hr.index
  cached := hr.cached

/-- Whether something comes to the same with every renderer that may be used with a model, and leaves a
renderer that may be used as before. -/
def Steady {α : Type} (m : Model) (f : StateM Renderer α) : Prop :=
  ∃ a, ∀ r, r.Serves m → (f r).1 = a ∧ Follows m r (f r).2

namespace Steady
variable {α β : Type} {f : StateM Renderer α} {g : α → StateM Renderer β}

theorem pure (a : α) : Steady m (Pure.pure a) :=
  ⟨a, fun _ h => ⟨rfl, .inl rfl, rfl, h.cached, id⟩⟩

theorem bind (hf : Steady m f) (hg : ∀ a, Steady m (g a)) : Steady m (f >>= g) := by
  have ⟨a, ha⟩ := hf
  have ⟨b, hb⟩ := hg a
  refine ⟨b, fun r h => ?_⟩
  have hrun : (f >>= g) r = g (f r).1 (f r).2 := rfl
  obtain ⟨hfst, hsnd⟩ := ha r h
  obtain ⟨hanswer, hindex, hconfig, hcached, hroom⟩ := hb _ (h.of_follows hsnd)
  rw [hsnd.config] at hroom
  rw [hrun, hfst]
  exact ⟨hanswer, GraphIndex.eq_or_read_trans hsnd.index hindex, hconfig.trans hsnd.config, hcached,
    fun hr => hroom (hsnd.room hr)⟩

theorem withIndex {f : StateM GraphIndex α} (hf : GraphIndex.Steady m f) :
    Steady m (withIndex f) := by
  obtain ⟨a, ha⟩ := hf
  refine ⟨a, fun r h => ?_⟩
  obtain ⟨hanswer, hindex⟩ := ha r.index h.index
  exact ⟨hanswer, hindex, rfl, h.cached, id⟩

theorem parsed (m : Model) (text : String) : Steady m (parsed text) := by
  refine ⟨Template.ofString text, fun r h => ?_⟩
  unfold Renderer.parsed
  split
  · rename_i hon
    split
    · rename_i t ht
      exact ⟨h.cached text t ht, .inl rfl, rfl, h.cached, id⟩
    · exact ⟨rfl, .inl rfl, rfl, cached_remember h.cached text, fun _ => room_remember hon text _⟩
  · exact ⟨rfl, .inl rfl, rfl, h.cached, id⟩

/-- With any such renderer, the answer is that of a renderer that is new. -/
theorem fst_eq (hf : Steady m f) (h : r.Serves m) (config : RenderConfig) :
    (f r).1 = (f (new config)).1 := by
  obtain ⟨a, ha⟩ := hf
  rw [(ha r h).1, (ha (new config) (serves_new m config)).1]

end Steady

theorem steady_render (m : Model) (root : Target) (text : String) : Steady m (render m root text) := by
  unfold render
  split
  · exact .pure ""
  · exact .bind (.parsed m text) fun t => .withIndex (steady_renderTemplate m root t)

theorem steady_renderId (m : Model) (id text : String) : Steady m (renderId m id text) := by
  refine .bind (.withIndex (GraphIndex.Steady.keyOf? m id)) fun found => ?_
  cases found with
  | none => exact .pure none
  | some k => exact .bind (steady_render m (.object k) text) fun _ => .pure _

theorem Call.steady (m : Model) (c : Call) : Steady m (c.ask m) := by
  cases c with
  | label root text => exact steady_render m root text
  | labelOf id text => exact steady_renderId m id text

end Renderer

/-! ## Sessions -/

/-- Models by name, and one renderer that is used with all of them. -/
structure LabelSession where
  workspace : Workspace
  renderer : Renderer

namespace LabelSession
variable {s t : LabelSession} {config : RenderConfig}

/-- What can be done in a session. -/
inductive Step (s : LabelSession) : LabelSession → Prop where
  | create (name title : String) :
      s.Step { s with workspace := s.workspace.create name title }
  | copy {source : String} {m : Model} (name : String) (hm : s.workspace.get? source = some m) :
      s.Step { s with workspace := s.workspace.copy name m }
  | change {name : String} {m n : Model} (hm : s.workspace.get? name = some m) (h : m.Step n) :
      s.Step { s with workspace := s.workspace.put name n }
  | ask {name : String} {m : Model} (hm : s.workspace.get? name = some m) (c : Renderer.Call) :
      s.Step { s with renderer := (c.ask m s.renderer).2 }
  | query {name : String} {m : Model} (hm : s.workspace.get? name = some m)
      (q : GraphIndex.Query) :
      s.Step { s with renderer := { s.renderer with index := (q.ask m s.renderer.index).2 } }
  | invalidate :
      s.Step { s with renderer := { s.renderer with index := s.renderer.index.invalidate } }

/-- The sessions that can come about with a renderer of some configuration. -/
inductive Reachable (config : RenderConfig) : LabelSession → Prop where
  | start : Reachable config ⟨.empty, .new config⟩
  | step {s t : LabelSession} (h : Reachable config s) (hs : s.Step t) : Reachable config t

/-- The renderer may be used with every model of the session, and keeps no more templates than there is
room for. -/
structure Sound (config : RenderConfig) (s : LabelSession) : Prop where
  session : ∃ t : Session, t.Reachable ∧ t.workspace = s.workspace ∧ t.index = s.renderer.index
  cached : ∀ text t, s.renderer.cache[text]? = some t → t = Template.ofString text
  room : s.renderer.cachedTemplates ≤ config.room
  config : s.renderer.config = config

theorem Sound.serves (h : s.Sound config) {name : String} {m : Model}
    (hm : s.workspace.get? name = some m) : s.renderer.Serves m where
  index := by
    obtain ⟨t, ht, hworkspace, hindex⟩ := h.session
    rw [← hworkspace] at hm
    rw [← hindex]
    exact .session ht hm
  cached := h.cached

theorem Sound.step (h : s.Sound config) (hs : s.Step t) : t.Sound config := by
  have ⟨⟨u, hu, hworkspace, hindex⟩, hcached, hroom, hconfig⟩ := h
  cases hs with
  | create name title =>
    have hcreated := congrArg (·.create name title) hworkspace
    exact ⟨⟨_, .step hu (.create name title), hcreated, hindex⟩, hcached, hroom, hconfig⟩
  | @copy source m name hm =>
    rw [← hworkspace] at hm
    have hcopied := congrArg (·.copy name m) hworkspace
    exact ⟨⟨_, .step hu (.copy name hm), hcopied, hindex⟩, hcached, hroom, hconfig⟩
  | @change name m n hm hn =>
    rw [← hworkspace] at hm
    have hchanged := congrArg (·.put name n) hworkspace
    exact ⟨⟨_, .step hu (.change hm hn), hchanged, hindex⟩, hcached, hroom, hconfig⟩
  | @ask name m hm c =>
    obtain ⟨a, ha⟩ := c.steady m
    obtain ⟨-, hafter⟩ := ha _ (h.serves hm)
    subst hconfig
    refine ⟨?_, hafter.cached, hafter.room hroom, hafter.config⟩
    rw [← hworkspace] at hm
    -- The call left the index as it was, or as the query for the size leaves it.
    rcases hafter.index with hsame | hread
    · exact ⟨u, hu, hworkspace, hindex.trans hsame.symm⟩
    · refine ⟨_, .step hu (.ask hm .size), hworkspace, ?_⟩
      rw [hread, ← hindex]
      rfl
  | @query name m hm q =>
    rw [← hworkspace] at hm
    have hasked := congrArg (fun ix => (q.ask m ix).2) hindex
    exact ⟨⟨_, .step hu (.ask hm q), hworkspace, hasked⟩, hcached, hroom, hconfig⟩
  | invalidate =>
    have hforgotten := congrArg (·.invalidate) hindex
    exact ⟨⟨_, .step hu .invalidate, hworkspace, hforgotten⟩, hcached, hroom, hconfig⟩

theorem Reachable.sound (h : s.Reachable config) : s.Sound config := by
  induction h with
  | start =>
    have hcached := (Renderer.serves_new (.new 0 "") config).cached
    exact ⟨⟨_, .start, rfl, rfl⟩, hcached, Nat.zero_le _, rfl⟩
  | step _ hs ih => exact ih.step hs

/-- Whatever was done in a session, and however its renderer is configured, every call is answered as by
a renderer that is new; and no templates are kept unless that is asked for, and then as many as there is
room for, but at least one. -/
theorem ask_eq_ask_new (h : s.Reachable config) :
    (∀ name m, s.workspace.get? name = some m → ∀ c : Renderer.Call,
      (c.ask m s.renderer).1 = (c.ask m (.new .default)).1) ∧
    (config.cacheTemplates = false → s.renderer.cachedTemplates = 0) ∧
    (config.cacheTemplates = true → s.renderer.cachedTemplates ≤ max 1 config.cacheCapacity) := by
  have hsound := h.sound
  have hroom := hsound.room
  refine ⟨fun name m hm c => ?_, fun hoff => ?_, fun hon => ?_⟩
  · exact (c.steady m).fst_eq (hsound.serves hm) .default
  · simpa [RenderConfig.room, hoff] using hroom
  · simpa only [RenderConfig.room, if_pos hon] using hroom

/-- A model is labelled, renamed, and labelled again, with room for no template: the label is that of the
new name, and one template is kept. -/
theorem ask_eq_ask_new_renamed :
    let config : RenderConfig := ⟨true, 0⟩
    let c : Renderer.Call := .label .model "$model\x7bname\x7d"
    let m := Model.new 1 "Plan"
    let n := (m.apply (.rename "Draft")).2
    let w := (Workspace.empty.create "main" "Plan").put "main" n
    let s : LabelSession := ⟨w, (c.ask m (.new config)).2⟩
    s.Reachable config ∧ (c.ask n s.renderer).1 = "Draft" ∧ s.renderer.cachedTemplates ≤ 1 := by
  intro config c m n w s
  have hm : (Workspace.empty.create "main" "Plan").get? "main" = some m := rfl
  have hs : s.Reachable config :=
    .step (.step (.step .start (.create "main" "Plan")) (.ask hm c)) (.change hm (.apply _))
  obtain ⟨hasked, -, hkept⟩ := ask_eq_ask_new hs
  have hnew : (Renderer.render n .model "$model\x7bname\x7d" (.new .default)).1 = "Draft" := by
    decide +kernel
  exact ⟨hs, (hasked "main" n rfl c).trans hnew, hkept rfl⟩

end LabelSession

end ModelLabels
