import Mathlib.Data.String.Basic
import ModelLabels.Template.Basic
import ModelLabels.Proofs.Template.Grammar
/-! # Segments tile a text

The segments of a text are parts of it, one behind the other, that together are the whole text.  What
the spans of segments say in bytes follows from the characters that each segment stands for.

* `Span.slice`: the part of a text under a span; `slice_append`.
* `Span.Marks`: the same for a part of a text.
* `Segment.Tiles`: a text is divided into segments; `tiles_scanFrom`.
* `Template.Tiling`: the same in terms of spans; `Segment.Tiles.tiling`.
-/

namespace ModelLabels
set_option autoImplicit false

/-! ## Slices -/

theorem utf8Length_eq_utf8Len (cs : List Char) : utf8Length cs = String.utf8Len cs := by
  induction cs with
  | nil => rfl
  | cons c cs ih => rw [utf8Length_cons, ih, String.utf8Len_cons, Nat.add_comm]

theorem utf8ByteSize_eq (text : String) : text.utf8ByteSize = utf8Length text.toList := by
  rw [utf8Length_eq_utf8Len, ← String.utf8ByteSize_ofList, String.ofList_toList]

/-- The part of a text under a span. -/
def Span.slice (s : Span) (text : String) : String :=
  String.Pos.Raw.extract text ⟨s.start⟩ ⟨s.stop⟩

section Slice
variable {text : String} {before part after : List Char}

/-- Where a text is divided in three, the middle part is the one under its span. -/
theorem slice_append {s : Span} (htext : text.toList = before ++ (part ++ after))
    (hstart : s.start = utf8Length before) (hstop : s.stop = utf8Length before + utf8Length part) :
    s.slice text = String.ofList part := by
  rw [Span.slice, hstart, hstop, ← String.ofList_toList (s := text), htext, ← List.append_assoc,
    utf8Length_eq_utf8Len, utf8Length_eq_utf8Len]
  exact String.extract_of_valid before part after

/-- Where a text is divided in two, there is a boundary between characters. -/
theorem isValid_of_append (htext : text.toList = before ++ after) :
    String.Pos.Raw.IsValid text ⟨utf8Length before⟩ := by
  refine String.Pos.Raw.isValid_iff_exists_append.2
    ⟨String.ofList before, String.ofList after, ?_, ?_⟩
  · rw [← String.ofList_append, ← htext, String.ofList_toList]
  · rw [utf8Length_eq_utf8Len, ← String.utf8ByteSize_ofList]
    rfl

end Slice

/-- Whether a span marks a part of a text whose first byte is at a position. -/
def Span.Marks (s : Span) (pos : Nat) (cs part : List Char) : Prop :=
  ∃ before after, cs = before ++ (part ++ after) ∧
    s = ⟨pos + utf8Length before, pos + utf8Length before + utf8Length part⟩

namespace Span
section Marks
variable {s : Span} {pos : Nat} {text : String} {cs part : List Char}

/-- A span in a part of a text marks the same in the text. -/
theorem Marks.within {before after : List Char} (h : s.Marks (pos + utf8Length before) cs part) :
    s.Marks pos (before ++ (cs ++ after)) part := by
  obtain ⟨first, last, rfl, rfl⟩ := h
  refine ⟨before ++ first, last ++ after, by simp, ?_⟩
  rw [utf8Length_append, Nat.add_assoc pos]

theorem Marks.start_le_stop (h : s.Marks pos cs part) : s.start ≤ s.stop := by
  obtain ⟨before, after, -, rfl⟩ := h
  exact Nat.le_add_right _ _

theorem Marks.stop_le (h : s.Marks 0 text.toList part) : s.stop ≤ text.utf8ByteSize := by
  obtain ⟨before, after, htext, rfl⟩ := h
  rw [utf8ByteSize_eq, htext, utf8Length_append, utf8Length_append]
  dsimp only
  omega

theorem Marks.isValid (h : s.Marks 0 text.toList part) :
    String.Pos.Raw.IsValid text ⟨s.start⟩ ∧ String.Pos.Raw.IsValid text ⟨s.stop⟩ := by
  obtain ⟨before, after, htext, rfl⟩ := h
  rw [Nat.zero_add, ← utf8Length_append]
  exact ⟨isValid_of_append htext, isValid_of_append (by rw [htext, List.append_assoc])⟩

theorem Marks.slice_eq (h : s.Marks 0 text.toList part) : s.slice text = String.ofList part := by
  obtain ⟨before, after, htext, rfl⟩ := h
  exact slice_append htext (Nat.zero_add _) (congrArg (· + _) (Nat.zero_add _))

end Marks
end Span

/-! ## Segments and the characters they stand for -/

namespace Segment

/-- Whether a segment is plain text. -/
def isLiteral : Segment → Bool
  | literal _ => true
  | directive _ => false

/-- The texts of a segment whose first byte is at `pos`. -/
inductive Reads (pos : Nat) : List Char → Segment → Prop where
  | literal {part : List Char} (hne : part ≠ []) : Reads pos part (literal (String.ofList part))
  | directive {part : List Char} {d : Directive} (h : Directive.Written pos part d) :
      Reads pos part (directive d)

/-- A text whose first byte is at a position is divided into segments, with no literal text before
another one. -/
inductive Tiles : Nat → List Char → List (Spanned Segment) → Prop where
  | nil {pos : Nat} : Tiles pos [] []
  | cons {pos : Nat} {part rest : List Char} {segment : Segment} {segments : List (Spanned Segment)}
      (hreads : Reads pos part segment)
      (hapart : ∀ next ∈ segments.head?, ¬ (segment.isLiteral = true ∧ next.node.isLiteral = true))
      (hrest : Tiles (pos + utf8Length part) rest segments) :
      Tiles pos (part ++ rest) (⟨segment, ⟨pos, pos + utf8Length part⟩⟩ :: segments)

theorem Reads.ne_nil {pos : Nat} {part : List Char} {s : Segment} (h : Reads pos part s) :
    part ≠ [] := by
  cases h with
  | literal hne => exact hne
  | directive h =>
    cases h
    exact List.cons_ne_nil _ _

theorem Tiles.push {pos : Nat} {c : Char} {cs : List Char} {segments : List (Spanned Segment)}
    (h : Tiles (pos + c.utf8Size) cs segments) : Tiles pos (c :: cs) (push pos c segments) := by
  have hsingle : Reads pos [c] (literal (String.singleton c)) := .literal (List.cons_ne_nil c [])
  -- The character joins the literal text behind it; before a directive it is literal by itself.
  cases h with
  | nil => exact .cons hsingle (fun _ hnext => nomatch hnext) .nil
  | @cons _ part rest segment segments hreads hapart hrest =>
    have hwhole := Tiles.cons hreads hapart hrest
    cases hreads with
    | literal hne =>
      have hlonger : Reads pos (c :: part) (literal (String.ofList (c :: part))) :=
        .literal (List.cons_ne_nil c part)
      rw [Nat.add_assoc, ← utf8Length_cons] at hrest
      have htiles := Tiles.cons hlonger hapart hrest
      have hcons : String.ofList (c :: part) = String.singleton c ++ String.ofList part :=
        @String.ofList_append [c] part
      rw [hcons] at htiles
      rwa [Segment.push, Nat.add_assoc, ← utf8Length_cons]
    | directive hwritten =>
      refine .cons hsingle (fun next hnext => ?_) hwhole
      cases hnext
      rintro ⟨-, hliteral⟩
      cases hliteral

theorem tiles_scanFrom (pos : Nat) (cs : List Char) :
    Tiles pos cs (Template.scanFrom pos cs).segments := by
  fun_induction Template.scanFrom pos cs with
  | case1 pos => exact .nil
  | case2 pos rest r hread tail ih =>
    obtain ⟨body, hbody, hwritten, hstop⟩ := Directive.read_eq_ok_iff.1 hread
    have hrest : Tiles (pos + utf8Length body) r.rest tail.segments := by
      rw [← hstop]
      exact ih
    rw [hbody, hstop]
    exact .cons (.directive hwritten) (fun _ _ => by simp [isLiteral]) hrest
  | case3 pos rest defect hread tail ih => exact ih.push
  | case4 pos c rest hc tail ih => exact ih.push

/-! ## What a division says -/

section Tiles
variable {pos : Nat} {cs : List Char} {segments : List (Spanned Segment)}

theorem Tiles.nil_iff (h : Tiles pos cs segments) : segments = [] ↔ cs = [] := by
  cases h with
  | nil => simp
  | cons hreads _ _ => simp [hreads.ne_nil]

theorem Tiles.start_eq (h : Tiles pos cs segments) : ∀ s ∈ segments.head?, s.span.start = pos := by
  cases h with
  | nil => exact fun _ hs => nomatch hs
  | cons =>
    rintro _ ⟨⟩
    rfl

theorem Tiles.stop_eq (h : Tiles pos cs segments) :
    ∀ s ∈ segments.getLast?, s.span.stop = pos + utf8Length cs := by
  induction h with
  | nil => exact fun _ hs => nomatch hs
  | @cons pos part rest segment segments _ _ hrest ih =>
    intro s hs
    cases segments with
    | nil =>
      cases hs
      simp [hrest.nil_iff.1 rfl]
    | cons t segments =>
      rw [List.getLast?_cons_cons] at hs
      rw [ih s hs, utf8Length_append, Nat.add_assoc]

/-- A segment ends where the next one starts, and literal text is never before literal text. -/
theorem Tiles.isChain (h : Tiles pos cs segments) : segments.IsChain fun s t =>
    s.span.stop = t.span.start ∧ ¬ (s.node.isLiteral = true ∧ t.node.isLiteral = true) := by
  induction h with
  | nil => exact .nil
  | @cons pos part rest segment segments _ hapart hrest ih =>
    cases segments with
    | nil => exact .singleton _
    | cons t segments => exact .cons_cons ⟨(hrest.start_eq t rfl).symm, hapart t rfl⟩ ih

/-- Every segment stands for a part of the text. -/
theorem Tiles.exists_part (h : Tiles pos cs segments) {s : Spanned Segment} (hs : s ∈ segments) :
    ∃ before part after, cs = before ++ (part ++ after) ∧
      s.span.start = pos + utf8Length before ∧
      s.span.stop = pos + utf8Length before + utf8Length part ∧ Reads s.span.start part s.node := by
  induction h with
  | nil => cases hs
  | @cons pos part rest segment segments hreads _ hrest ih =>
    rcases List.mem_cons.1 hs with rfl | hs
    · exact ⟨[], part, rest, rfl, rfl, rfl, hreads⟩
    · obtain ⟨before, more, after, rfl, hstart, hstop, hmore⟩ := ih hs
      refine ⟨part ++ before, more, after, by simp, ?_, ?_, hmore⟩
      · rw [hstart, utf8Length_append, Nat.add_assoc]
      · rw [hstop, utf8Length_append, Nat.add_assoc pos]

end Tiles

end Segment

/-! ## Spans -/

/-- A directive under a span of a text: behind the dollar sign stands the route up to the opening
brace, and behind that the attribute up to the closing one. -/
structure Directive.Framed (text : String) (d : Directive) (span : Span) : Prop where
  dollar : Span.slice ⟨span.start, d.route.span.start⟩ text = "$"
  opening : Span.slice ⟨d.route.span.stop, d.attr.span.start⟩ text = "\x7b"
  closing : Span.slice ⟨d.attr.span.stop, span.stop⟩ text = "\x7d"
  route_start : d.route.span.start = span.start + 1
  route_le : d.route.span.start ≤ d.route.span.stop
  attr_start : d.attr.span.start = d.route.span.stop + 1
  attr_le : d.attr.span.start ≤ d.attr.span.stop
  stop : span.stop = d.attr.span.stop + 1

/-- Spans of segments tile a text, and the segments are what stands there. -/
structure Template.Tiling (text : String) (segments : List (Spanned Segment)) : Prop where
  nonempty : ∀ s ∈ segments, s.span.start < s.span.stop
  /-- The first segment starts with the text, and there is none only if the text is empty. -/
  start : ∀ s ∈ segments.head?, s.span.start = 0
  nil_iff : segments = [] ↔ text = ""
  stop : ∀ s ∈ segments.getLast?, s.span.stop = text.utf8ByteSize
  /-- Each segment starts where the one before it ends, and no two literal ones are adjacent. -/
  isChain : segments.IsChain fun s t =>
    s.span.stop = t.span.start ∧ ¬ (s.node.isLiteral = true ∧ t.node.isLiteral = true)
  boundaries : ∀ s ∈ segments,
    String.Pos.Raw.IsValid text ⟨s.span.start⟩ ∧ String.Pos.Raw.IsValid text ⟨s.span.stop⟩
  literals : ∀ t span, ⟨.literal t, span⟩ ∈ segments → t = span.slice text
  directives : ∀ d span, ⟨.directive d, span⟩ ∈ segments → d.Framed text span

theorem Directive.Written.framed {text : String} {before body after : List Char} {d : Directive}
    (htext : text.toList = before ++ (body ++ after))
    (h : Directive.Written (utf8Length before) body d) :
    d.Framed text ⟨utf8Length before, utf8Length before + utf8Length body⟩ := by
  have hstop := h.stop_eq
  have hmarks : ('$').utf8Size = 1 ∧ ('\x7b').utf8Size = 1 ∧ ('\x7d').utf8Size = 1 := by decide
  obtain ⟨hdollar, hopening, hclosing⟩ := hmarks
  cases h with
  | @mk way word route attr hroute hattr =>
    refine ⟨?_, ?_, ?_, rfl, Nat.le_add_right _ _, rfl, Nat.le_add_right _ _, hstop.symm⟩
    · have hat : text.toList = before ++ (['$'] ++ (way ++ '\x7b' :: (word ++ '\x7d' :: after))) := by
        simpa using htext
      exact slice_append hat rfl (by simp [hdollar])
    · have hat : text.toList =
          (before ++ '$' :: way) ++ (['\x7b'] ++ (word ++ '\x7d' :: after)) := by simpa using htext
      refine slice_append hat ?_ ?_
      · simp [hdollar, Nat.add_assoc]
      · simp [hdollar, hopening, Nat.add_assoc]
    · have hat : text.toList =
          (before ++ '$' :: (way ++ '\x7b' :: word)) ++ (['\x7d'] ++ after) := by simpa using htext
      refine slice_append hat ?_ ?_
      · simp [hdollar, hopening, Nat.add_assoc]
      · simp [hdollar, hopening, hclosing, Nat.add_assoc]

/-- A division of a text, in terms of spans. -/
theorem Segment.Tiles.tiling {text : String} {segments : List (Spanned Segment)}
    (h : Tiles 0 text.toList segments) : Template.Tiling text segments where
  nonempty s hs := by
    obtain ⟨before, part, after, -, hstart, hstop, hreads⟩ := h.exists_part hs
    have hpos : utf8Length part ≠ 0 := fun hzero => hreads.ne_nil (utf8Length_eq_zero.1 hzero)
    omega
  start := h.start_eq
  nil_iff := h.nil_iff.trans String.toList_eq_nil_iff
  stop s hs := by rw [h.stop_eq s hs, Nat.zero_add, utf8ByteSize_eq]
  isChain := h.isChain
  boundaries s hs := by
    obtain ⟨before, part, after, htext, hstart, hstop, -⟩ := h.exists_part hs
    rw [Nat.zero_add] at hstart hstop
    rw [hstart, hstop, ← utf8Length_append]
    exact ⟨isValid_of_append htext, isValid_of_append (by rw [htext, List.append_assoc])⟩
  literals t span hs := by
    obtain ⟨before, part, after, htext, hstart, hstop, hreads⟩ := h.exists_part hs
    rw [Nat.zero_add] at hstart hstop
    cases hreads
    exact (slice_append htext hstart hstop).symm
  directives d span hs := by
    obtain ⟨before, part, after, htext, hstart, hstop, hreads⟩ := h.exists_part hs
    rw [Nat.zero_add] at hstart hstop
    obtain ⟨start, stop⟩ := span
    cases hreads with
    | directive hwritten =>
      cases hstart
      cases hstop
      exact hwritten.framed htext

theorem Template.tiling_ofString (text : String) : Tiling text (ofString text).segments :=
  (Segment.tiles_scanFrom 0 text.toList).tiling

end ModelLabels
