import ModelLabels.Config
import ModelLabels.Subject
import ModelLabels.Template.Basic
/-! # Rendering

A template renders to its text with every directive replaced by the attribute of the target that its
route leads to.  Rendering never fails: what cannot be reached or read renders as nothing.

* `renderTemplate`: the label of a template that has been read.
* `Renderer.render`: the label of a text, which is read first or taken from the cache.
-/

namespace ModelLabels
set_option autoImplicit false

/-- What a directive renders to. -/
def renderDirective (m : Model) (root : Target) (d : Directive) : StateM GraphIndex String := do
  match ← navigate m root d.route.node with
  | some target => return renderAttribute m target d.attr.node
  | none => return ""

/-- What a segment renders to. -/
def renderSegment (m : Model) (root : Target) : Segment → StateM GraphIndex String
  | .literal text => return text
  | .directive d => renderDirective m root d

/-- What the segments of a template render to, one after the other. -/
def renderSegments (m : Model) (root : Target) : List (Spanned Segment) → StateM GraphIndex String
  | [] => return ""
  | s :: rest => do
    let first ← renderSegment m root s.node
    let others ← renderSegments m root rest
    return first ++ others

/-- Whether a target exists. -/
def Model.hasTarget (m : Model) : Target → Bool
  | .model => true
  | .object k => m.contains k

/-- The label of a template; for a root that does not exist it is empty. -/
def renderTemplate (m : Model) (root : Target) (t : Template) : StateM GraphIndex String :=
  if m.hasTarget root then renderSegments m root t.segments else return ""

/-- An index with a configuration and the templates that were read. -/
structure Renderer where
  index : GraphIndex
  config : RenderConfig
  cache : Std.HashMap String Template

namespace Renderer

/-- A renderer that has rendered nothing yet. -/
def new (config : RenderConfig) : Renderer := ⟨.empty, config, ∅⟩

/-- Ask the index of a renderer. -/
def withIndex {α : Type} (f : StateM GraphIndex α) : StateM Renderer α := fun r =>
  let (a, index) := f r.index
  (a, { r with index })

/-- The number of templates in the cache. -/
def cachedTemplates (r : Renderer) : Nat := r.cache.size

/-- Put a template into the cache, which is emptied first when it is full. -/
def remember (r : Renderer) (text : String) (t : Template) : Renderer :=
  let cache := if r.config.cacheCapacity ≤ r.cache.size then ∅ else r.cache
  { r with cache := cache.insert text t }

/-- The template that a text stands for, from the cache where it is there. -/
def parsed (text : String) : StateM Renderer Template := fun r =>
  if r.config.cacheTemplates then
    match r.cache[text]? with
    | some t => (t, r)
    | none => (Template.ofString text, r.remember text (Template.ofString text))
  else (Template.ofString text, r)

/-- The label of a text for a root. -/
def render (m : Model) (root : Target) (text : String) : StateM Renderer String :=
  if text = "" then return ""
  else do
    let t ← parsed text
    withIndex (renderTemplate m root t)

/-- The label of a text for the object with an identifier, if there is one. -/
def renderId (m : Model) (id text : String) : StateM Renderer (Option String) := do
  match ← withIndex (GraphIndex.keyOf? m id) with
  | some k => return some (← render m (.object k) text)
  | none => return none

end Renderer

/-- The label of a text for a root, by a renderer for this one label. -/
def renderOnce (m : Model) (root : Target) (text : String) : String :=
  ((Renderer.render m root text).run (Renderer.new .default)).1

end ModelLabels
