import ModelLabels.Template.Basic
import ModelLabels.Proofs.Template.Grammar
/-! # The directives of a text

A text is read from left to right, and reading goes on one byte behind a dollar sign that starts no
directive.  A directive holds no dollar sign but its first character, so none begins within another
one, and each one that is written anywhere in a text is met.

* `Directive.Occurs`: a directive that is written in a text, with its place.
* `Template.mem_directives_scanFrom`: the directives that are read are those that occur.
* `Template.directives_iff_occurs`: the same for a whole text, where they are unique and apart.
-/

namespace ModelLabels
set_option autoImplicit false

namespace Directive

/-! ## One directive -/

section Written
variable {dollar : Nat} {body rest : List Char} {d : Directive}

theorem Written.cons (h : Written dollar body d) :
    ∃ inner, body = '$' :: inner ∧ '$' ∉ inner := by
  cases h with
  | mk hroute hattr =>
    refine ⟨_, rfl, ?_⟩
    have hway := hroute.not_mem (c := '$') (by decide) (by decide)
    have hword := hattr.not_mem (c := '$') (by decide) (by decide)
    simp [hway, hword]

theorem Written.read {inner : List Char} (h : Written dollar ('$' :: inner) d) :
    Directive.read dollar (inner ++ rest) = .ok ⟨d, dollar + utf8Length ('$' :: inner), rest⟩ :=
  read_eq_ok_iff.2 ⟨'$' :: inner, rfl, h, rfl⟩

theorem Written.unique {body' rest' : List Char} {d' : Directive} (h : Written dollar body d)
    (h' : Written dollar body' d') (heq : body ++ rest = body' ++ rest') : body = body' ∧ d = d' := by
  obtain ⟨inner, rfl, -⟩ := h.cons
  obtain ⟨inner', rfl, -⟩ := h'.cons
  have hinner : inner ++ rest = inner' ++ rest' := (List.cons.inj heq).2
  have hread : Directive.read dollar (inner ++ rest) = _ := h.read
  rw [hinner, h'.read] at hread
  simp only [Except.ok.injEq, Reading.mk.injEq] at hread
  obtain ⟨rfl, -, rfl⟩ := hread
  exact ⟨List.append_cancel_right heq, rfl⟩

end Written

/-! ## Occurrences -/

theorem append_inj_of_utf8Length {as bs cs ds : List Char} (h : as ++ cs = bs ++ ds)
    (hlength : utf8Length as = utf8Length bs) : as = bs ∧ cs = ds := by
  rcases List.append_eq_append_iff.1 h with ⟨more, rfl, rfl⟩ | ⟨more, rfl, rfl⟩
  all_goals
    rw [utf8Length_append] at hlength
    have hmore : utf8Length more = 0 := by omega
    obtain rfl := utf8Length_eq_zero.1 hmore
    simp

/-- A directive is written in a text whose first byte is at `pos`, whatever is before and behind it. -/
def Occurs (pos : Nat) (cs : List Char) (s : Spanned Directive) : Prop :=
  ∃ before body after, cs = before ++ (body ++ after) ∧
    s.span = ⟨pos + utf8Length before, pos + utf8Length before + utf8Length body⟩ ∧
    Written s.span.start body s.node

section Occurs
variable {pos : Nat} {cs : List Char} {s : Spanned Directive}

theorem not_occurs_nil : ¬ Occurs pos [] s := by
  rintro ⟨before, body, after, hcs, -, hwritten⟩
  obtain ⟨inner, rfl, -⟩ := hwritten.cons
  simp at hcs

/-- A directive in a text is written at its beginning or occurs behind its first character. -/
theorem occurs_cons {c : Char} : Occurs pos (c :: cs) s ↔
    (∃ body after, c :: cs = body ++ after ∧ s.span = ⟨pos, pos + utf8Length body⟩ ∧
      Written pos body s.node) ∨ Occurs (pos + c.utf8Size) cs s := by
  constructor
  · rintro ⟨before, body, after, hcs, hspan, hwritten⟩
    cases before with
    | nil =>
      rw [hspan] at hwritten
      exact .inl ⟨body, after, hcs, hspan, hwritten⟩
    | cons b before =>
      obtain ⟨rfl, hrest⟩ := List.cons.inj hcs
      refine .inr ⟨before, body, after, hrest, ?_, hwritten⟩
      rw [hspan, utf8Length_cons, ← Nat.add_assoc pos]
  · rintro (⟨body, after, hcs, hspan, hwritten⟩ | ⟨before, body, after, rfl, hspan, hwritten⟩)
    · refine ⟨[], body, after, hcs, hspan, ?_⟩
      rwa [hspan]
    · refine ⟨c :: before, body, after, rfl, ?_, hwritten⟩
      rw [hspan, utf8Length_cons, ← Nat.add_assoc pos]

theorem Occurs.le_start (h : Occurs pos cs s) : pos ≤ s.span.start := by
  obtain ⟨before, body, after, -, hspan, -⟩ := h
  rw [hspan]
  exact Nat.le_add_right _ _

/-- Two directives that start at the same byte of a text are one. -/
theorem Occurs.unique {t : Spanned Directive} (hs : Occurs pos cs s) (ht : Occurs pos cs t)
    (hstart : s.span.start = t.span.start) : s = t := by
  obtain ⟨before, body, after, rfl, hspan, hwritten⟩ := hs
  obtain ⟨before', body', after', hcs, hspan', hwritten'⟩ := ht
  have hlength : utf8Length before = utf8Length before' := by
    rw [hspan, hspan'] at hstart
    exact Nat.add_left_cancel hstart
  obtain ⟨rfl, hrest⟩ := append_inj_of_utf8Length hcs hlength
  rw [hstart] at hwritten
  obtain ⟨rfl, hnode⟩ := hwritten.unique hwritten' hrest
  obtain ⟨node, span⟩ := s
  obtain ⟨node', span'⟩ := t
  cases hnode
  cases hspan
  cases hspan'
  rfl

/-- Where no directive is read, none is written. -/
theorem occurs_cons_of_not_read {c : Char}
    (h : c = '$' → ∀ r, Directive.read pos cs ≠ .ok r) :
    Occurs pos (c :: cs) s ↔ Occurs (pos + c.utf8Size) cs s := by
  rw [occurs_cons, or_iff_right]
  rintro ⟨body, after, hcs, -, hwritten⟩
  obtain ⟨inner, rfl, -⟩ := hwritten.cons
  obtain ⟨hc, rfl⟩ := List.cons.inj hcs
  exact h hc _ hwritten.read

theorem occurs_append {xs : List Char} (h : '$' ∉ xs) :
    Occurs pos (xs ++ cs) s ↔ Occurs (pos + utf8Length xs) cs s := by
  induction xs generalizing pos with
  | nil => rfl
  | cons x xs ih =>
    obtain ⟨hx, hxs⟩ := not_or.1 (fun hmem => h (List.mem_cons.2 hmem))
    have hne : x ≠ '$' := fun he => hx he.symm
    rw [List.cons_append, occurs_cons_of_not_read fun he => absurd he hne, ih hxs, utf8Length_cons,
      Nat.add_assoc]

/-- Behind a directive, the next one occurs after its end. -/
theorem occurs_of_written {body : List Char} {d : Directive} (h : Written pos body d) :
    Occurs pos (body ++ cs) s ↔
      s = ⟨d, ⟨pos, pos + utf8Length body⟩⟩ ∨ Occurs (pos + utf8Length body) cs s := by
  obtain ⟨inner, rfl, hinner⟩ := h.cons
  rw [List.cons_append, occurs_cons, occurs_append hinner, utf8Length_cons, Nat.add_assoc]
  refine or_congr_left ⟨?_, ?_⟩
  · rintro ⟨body', after, hcs, hspan, hwritten⟩
    have happend : '$' :: inner ++ cs = body' ++ after := hcs
    obtain ⟨rfl, hd⟩ := h.unique hwritten happend
    obtain ⟨node, span⟩ := s
    cases hd
    cases hspan
    rfl
  · rintro rfl
    exact ⟨_, cs, rfl, rfl, h⟩

end Occurs

end Directive

/-! ## Reading -/

namespace Template

theorem filterMap_directive?_push (pos : Nat) (c : Char) (segments : List (Spanned Segment)) :
    (Segment.push pos c segments).filterMap Segment.directive? =
      segments.filterMap Segment.directive? := by
  unfold Segment.push
  split <;> rfl

/-- The directives that are read from a text are those that occur in it. -/
theorem mem_directives_scanFrom {pos : Nat} {cs : List Char} {s : Spanned Directive} :
    s ∈ (scanFrom pos cs).segments.filterMap Segment.directive? ↔ Directive.Occurs pos cs s := by
  -- Reading skips a whole directive or one character, and no occurrence starts in what is skipped.
  fun_induction scanFrom pos cs with
  | case1 pos =>
    simp [Directive.not_occurs_nil]
  | case2 pos rest r hread tail ih =>
    obtain ⟨body, hbody, hwritten, hstop⟩ := Directive.read_eq_ok_iff.1 hread
    rw [hbody, Directive.occurs_of_written hwritten, ← hstop, ← ih]
    simp [Segment.directive?, tail]
  | case3 pos rest defect hread tail ih =>
    rw [filterMap_directive?_push, ih, Directive.occurs_cons_of_not_read]
    rintro - r hr
    rw [hread] at hr
    cases hr
  | case4 pos c rest hc tail ih =>
    rw [filterMap_directive?_push, ih, Directive.occurs_cons_of_not_read fun he => absurd he hc]

theorem pairwise_directives_scanFrom (pos : Nat) (cs : List Char) :
    ((scanFrom pos cs).segments.filterMap Segment.directive?).Pairwise
      fun s t => s.span.stop ≤ t.span.start := by
  fun_induction scanFrom pos cs with
  | case1 pos => exact .nil
  | case2 pos rest r hread tail ih =>
    refine .cons ?_ ih
    intro t ht
    exact (mem_directives_scanFrom.1 ht).le_start
  | case3 pos rest defect hread tail ih => rwa [filterMap_directive?_push]
  | case4 pos c rest hc tail ih => rwa [filterMap_directive?_push]

/-- The directives of a template are those that occur in its text, at most one at each place, and they
do not overlap. -/
theorem directives_iff_occurs (text : String) :
    (∀ s, s ∈ (ofString text).directives ↔ Directive.Occurs 0 text.toList s) ∧
      (∀ s t, Directive.Occurs 0 text.toList s → Directive.Occurs 0 text.toList t →
        s.span.start = t.span.start → s = t) ∧
      (ofString text).directives.Pairwise fun s t => s.span.stop ≤ t.span.start :=
  ⟨fun _ => mem_directives_scanFrom, fun _ _ hs ht hstart => hs.unique ht hstart,
    pairwise_directives_scanFrom 0 text.toList⟩

/-- A directive is found behind dollar signs and braces that start none.  The keyword of its relationship
type has a capital, and that of the end a long s. -/
theorem directives_iff_occurs_brace :
    let d : Spanned Directive :=
      ⟨⟨⟨.related (.known .flow) .source, ⟨6, 18⟩⟩, ⟨.name, ⟨19, 23⟩⟩⟩, ⟨5, 24⟩⟩
    let text := "\x7d$x \x7b$Flow:ſource\x7bname\x7d"
    Directive.Occurs 0 text.toList d ∧ d ∈ (ofString text).directives ∧
      ∀ s, Directive.Occurs 0 text.toList s → s.span.start = 5 → s = d := by
  intro d text
  have hword : isIdent ['F', 'l', 'o', 'w'] = true := by decide
  have hkeyword (k : Keyword) : k.isSpelledBy ['F', 'l', 'o', 'w'] = false := by cases k <;> decide
  have hend : Endpoint.source.keyword.isSpelledBy ['ſ', 'o', 'u', 'r', 'c', 'e'] = true := by decide
  have hrelation : Relation.ofKeyword (String.ofList ['F', 'l', 'o', 'w']) = .known .flow := by decide
  have hroute := Route.Spelling.related hword hkeyword hend
  rw [hrelation] at hroute
  have hattr : Attribute.Spelling ['n', 'a', 'm', 'e'] .name :=
    Attribute.ofChars?_eq_some_iff.1 (by decide)
  have hoccurs : Directive.Occurs 0 text.toList d :=
    ⟨['\x7d', '$', 'x', ' ', '\x7b'], _, [], by decide, rfl, .mk hroute hattr⟩
  obtain ⟨hmem, hunique, -⟩ := directives_iff_occurs text
  exact ⟨hoccurs, (hmem d).2 hoccurs, fun s hs hstart => hunique s d hs hoccurs hstart⟩

end Template

end ModelLabels
