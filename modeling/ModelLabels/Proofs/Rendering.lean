import ModelLabels.Renderer
import ModelLabels.Proofs.SteadyIndex
import ModelLabels.Proofs.Template.NormalForm
/-! # Rendering replaces directives

The label of a text is the text itself, but with the value of each directive in place of the bytes of
the directive, whatever the renderer was used for before.

* `Directive.value`: what a directive stands for.
* `replaced`: a text with other text in place of some of its spans; `Segment.Tiles.replaced_eq`.
* `Renderer.Serves`: the renderers that may be used with a model; `Serves.render_fst`.
* `Template.tiling_and_render`: the segments of a text, and its labels.
-/

namespace ModelLabels
set_option autoImplicit false

/-! ## Replacing spans -/

/-- The text from byte `pos` on, with other text in place of spans that are given in order. -/
def replaced (text : String) (pos : Nat) : List (Spanned String) → String
  | [] => Span.slice ⟨pos, text.utf8ByteSize⟩ text
  | edit :: edits =>
    Span.slice ⟨pos, edit.span.start⟩ text ++ edit.node ++ replaced text edit.span.stop edits

namespace Segment

/-- Segments one after the other, with a value in place of each directive. -/
def filled (value : Directive → String) : List (Spanned Segment) → String
  | [] => ""
  | ⟨literal t, _⟩ :: segments => t ++ filled value segments
  | ⟨directive d, _⟩ :: segments => value d ++ filled value segments

theorem Tiles.replaced_eq {text : String} {done pending cs : List Char} {pos : Nat}
    {segments : List (Spanned Segment)} (h : Tiles pos cs segments) (value : Directive → String)
    (htext : text.toList = done ++ (pending ++ cs))
    (hpos : pos = utf8Length done + utf8Length pending) :
    replaced text (utf8Length done) ((segments.filterMap directive?).map fun d =>
      ⟨value d.node, d.span⟩) = String.ofList pending ++ filled value segments := by
  -- What is pending was read since the last directive, and is copied at the next one or at the end.
  induction h generalizing done pending with
  | nil =>
    show Span.slice _ text = _
    have hstop : text.utf8ByteSize = utf8Length done + utf8Length pending := by
      rw [utf8ByteSize_eq, htext]
      simp
    rw [slice_append htext rfl hstop, filled, String.append_empty]
  | @cons pos part rest segment segments hreads _ _ ih =>
    have hstop : pos + utf8Length part = utf8Length done + utf8Length (pending ++ part) := by
      rw [hpos, utf8Length_append, Nat.add_assoc]
    cases hreads with
    | literal hne =>
      have hcopied : text.toList = done ++ ((pending ++ part) ++ rest) := by simpa using htext
      have hrest := ih hcopied hstop
      rw [String.ofList_append, String.append_assoc] at hrest
      exact hrest
    | @directive d hwritten =>
      have hdone : text.toList = (done ++ (pending ++ part)) ++ ([] ++ rest) := by
        simpa using htext
      have hrest := ih hdone (by rw [hstop, utf8Length_append done, utf8Length_nil, Nat.add_zero])
      rw [utf8Length_append, ← hstop, String.ofList_nil, String.empty_append] at hrest
      show Span.slice ⟨_, pos⟩ text ++ value d ++ _ = _
      rw [slice_append htext rfl hpos, hrest, filled, String.append_assoc]

/-- A text that is one directive is filled with the value of the directive. -/
theorem filled_of_written {text : String} {d : Directive} (h : d.Written 0 text.toList)
    (value : Directive → String) : filled value (Template.ofString text).segments = value d := by
  rw [Template.segments_of_written h, filled, filled, String.append_empty]

theorem filled_congr {value value' : Directive → String} {segments : List (Spanned Segment)}
    (h : ∀ d ∈ segments.filterMap directive?, value d.node = value' d.node) :
    filled value segments = filled value' segments := by
  induction segments with
  | nil => rfl
  | cons s segments ih =>
    obtain ⟨segment, span⟩ := s
    cases segment with
    | literal t => exact congrArg (t ++ ·) (ih h)
    | directive d =>
      have hd : value d = value' d := h ⟨d, span⟩ List.mem_cons_self
      have hrest := ih fun e he => h e (List.mem_cons_of_mem _ he)
      rw [filled, filled, hd, hrest]

end Segment

theorem replaced_directives (text : String) (value : Directive → String) :
    replaced text 0 ((Template.ofString text).directives.map fun d => ⟨value d.node, d.span⟩) =
      Segment.filled value (Template.ofString text).segments := by
  have htiles := Segment.tiles_scanFrom 0 text.toList
  have htext : text.toList = [] ++ ([] ++ text.toList) := rfl
  refine (htiles.replaced_eq value htext rfl).trans ?_
  rw [String.ofList_nil, String.empty_append]
  rfl

/-- A text in which nothing is replaced stays as it is. -/
theorem replaced_nil (text : String) : replaced text 0 [] = text := by
  have htext : text.toList = [] ++ (text.toList ++ []) := by simp
  refine (slice_append htext rfl ?_).trans String.ofList_toList
  rw [utf8ByteSize_eq, utf8Length_nil, Nat.zero_add]

/-! ## Values -/

/-- What a directive stands for at a root: the attribute of the target that its route leads to. -/
def Directive.value (m : Model) (root : Target) (d : Directive) : String :=
  match (navigate m root d.route.node .empty).1 with
  | some target => renderAttribute m target d.attr.node
  | none => ""

section Render
open GraphIndex
variable {m : Model} {ix : GraphIndex}

theorem steady_renderDirective (m : Model) (root : Target) (d : Directive) :
    Steady m (renderDirective m root d) := by
  refine .bind (steady_navigate m root d.route.node) fun target => ?_
  cases target <;> exact .pure _

theorem renderDirective_empty (m : Model) (root : Target) (d : Directive) :
    (renderDirective m root d .empty).1 = d.value m root := by
  refine ((steady_navigate m root d.route.node).bind_fst (fun target => ?_) .empty).trans ?_
  · cases target <;> exact .pure _
  · unfold Directive.value
    cases (navigate m root d.route.node .empty).1 <;> rfl

theorem steady_renderSegment (m : Model) (root : Target) (s : Segment) :
    Steady m (renderSegment m root s) := by
  cases s with
  | literal t => exact .pure t
  | directive d => exact steady_renderDirective m root d

theorem steady_renderSegments (m : Model) (root : Target) (segments : List (Spanned Segment)) :
    Steady m (renderSegments m root segments) := by
  induction segments with
  | nil => exact .pure ""
  | cons s segments ih =>
    exact .bind (steady_renderSegment m root s.node) fun _ => .bind ih fun _ => .pure _

theorem renderSegments_empty (m : Model) (root : Target) (segments : List (Spanned Segment)) :
    (renderSegments m root segments .empty).1 = Segment.filled (·.value m root) segments := by
  induction segments with
  | nil => rfl
  | cons s segments ih =>
    have hrest := steady_renderSegments m root segments
    refine ((steady_renderSegment m root s.node).bind_fst (fun first =>
      .bind hrest fun _ => .pure _) .empty).trans ?_
    refine (hrest.bind_fst (fun _ => .pure _) .empty).trans ?_
    rw [ih]
    obtain ⟨segment, span⟩ := s
    cases segment with
    | literal t => rfl
    | directive d => exact congrArg (· ++ _) (renderDirective_empty m root d)

theorem steady_renderTemplate (m : Model) (root : Target) (t : Template) :
    Steady m (renderTemplate m root t) := by
  unfold renderTemplate
  split
  · exact steady_renderSegments m root t.segments
  · exact .pure ""

theorem renderTemplate_fst {root : Target} (h : ix.Serves m) (hroot : m.hasTarget root = true)
    (t : Template) :
    (renderTemplate m root t ix).1 = Segment.filled (·.value m root) t.segments := by
  rw [(steady_renderTemplate m root t).fst_eq h, renderTemplate, if_pos hroot]
  exact renderSegments_empty m root t.segments

end Render

/-! ## Renderers -/

namespace Renderer
variable {m : Model} {r : Renderer}

/-- The renderers that may be used with a model: the index may be asked about it, and the cache holds
what its texts are read as. -/
structure Serves (m : Model) (r : Renderer) : Prop where
  index : r.index.Serves m
  cached : ∀ text t, r.cache[text]? = some t → t = Template.ofString text

theorem serves_new (m : Model) (config : RenderConfig) : (new config).Serves m where
  index := .empty
  cached text t h := by
    have hnone : (new config).cache[text]? = none := Std.HashMap.getElem?_empty
    rw [hnone] at h
    cases h

theorem cached_remember (h : ∀ text t, r.cache[text]? = some t → t = Template.ofString text)
    (text other : String) (t : Template)
    (ht : (r.remember text (Template.ofString text)).cache[other]? = some t) :
    t = Template.ofString other := by
  unfold remember at ht
  dsimp only at ht
  rw [Std.HashMap.getElem?_insert] at ht
  split at ht
  · rename_i he
    cases ht
    rw [eq_of_beq he]
  · split at ht
    · rw [Std.HashMap.getElem?_empty] at ht
      cases ht
    · exact h other t ht

namespace Serves

theorem parsed (h : r.Serves m) (text : String) :
    (parsed text r).1 = Template.ofString text ∧ (Renderer.parsed text r).2.Serves m := by
  unfold Renderer.parsed
  split
  · split
    · rename_i t ht
      exact ⟨h.cached text t ht, h⟩
    · exact ⟨rfl, h.index, cached_remember h.cached text⟩
  · exact ⟨rfl, h⟩

theorem render_fst (h : r.Serves m) {root : Target} (hroot : m.hasTarget root = true)
    (text : String) : (Renderer.render m root text r).1 =
      Segment.filled (·.value m root) (Template.ofString text).segments := by
  unfold Renderer.render
  split
  · rename_i hempty
    have hnone : (Template.ofString text).segments = [] := by
      rw [(Template.tiling_ofString text).nil_iff, hempty]
    rw [hnone]
    rfl
  · obtain ⟨hparsed, hserves⟩ := h.parsed text
    rw [← hparsed]
    exact renderTemplate_fst hserves.index hroot _

end Serves

end Renderer

/-! ## The property -/

/-- A text is tiled by its segments, and its label is the text with the value of each directive in place
of the directive; so a text without directives is its own label. -/
theorem Template.tiling_and_render (text : String) :
    Tiling text (ofString text).segments ∧
    ∀ (m : Model) (root : Target) (r : Renderer), r.Serves m → m.hasTarget root = true →
      (Renderer.render m root text r).1 =
        replaced text 0 ((ofString text).directives.map fun d => ⟨d.node.value m root, d.span⟩) ∧
      ((ofString text).directives = [] → (Renderer.render m root text r).1 = text) := by
  refine ⟨tiling_ofString text, fun m root r hr hroot => ?_⟩
  have hlabel : (Renderer.render m root text r).1 =
      replaced text 0 ((ofString text).directives.map fun d => ⟨d.node.value m root, d.span⟩) := by
    rw [hr.render_fst hroot]
    exact (replaced_directives text fun d => d.value m root).symm
  refine ⟨hlabel, fun hnone => ?_⟩
  rw [hlabel, hnone]
  exact replaced_nil text

/-- A dollar sign without a directive stays in the label. -/
theorem Template.tiling_and_render_title :
    let m := Model.new 1 "Plan"
    let r := Renderer.new .default
    r.Serves m ∧ m.hasTarget .model = true ∧
      (Renderer.render m .model "in $ $model\x7bname\x7d" r).1 = "in $ Plan" := by
  intro m r
  have hserves : r.Serves m := Renderer.serves_new m .default
  have hdirectives : (ofString "in $ $model\x7bname\x7d").directives =
      [⟨⟨⟨.along .model, ⟨6, 11⟩⟩, ⟨.name, ⟨12, 16⟩⟩⟩, ⟨5, 17⟩⟩] := by decide +kernel
  obtain ⟨-, hrender⟩ := tiling_and_render "in $ $model\x7bname\x7d"
  refine ⟨hserves, rfl, (hrender m .model r hserves rfl).1.trans ?_⟩
  rw [hdirectives]
  decide

end ModelLabels
