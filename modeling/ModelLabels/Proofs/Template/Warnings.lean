import Mathlib.Tactic.ByContra
import ModelLabels.Template.Warning
import ModelLabels.Proofs.Template.Occurrence
import ModelLabels.Proofs.Template.Viability
/-! # What is reported about a template

Every dollar sign that looks like a directive either starts one or is reported once, and every directive
is reported for an unknown relation and for an unknown attribute.  Whether a dollar sign is reported
depends on nothing but what follows it, since reading skips no dollar sign but those that start a
directive.

* `Directive.Attempted`: what looks like a directive behind its dollar sign; `read_of_not_attempted`.
* `Directive.defect?`, `Template.defectsFrom`: the defects behind single dollar signs and in a text;
  `Template.behindDollars`, `defects_scanFrom`, `filter_defectsFrom`.
* `Directive.problems`, `Written.warnings_eq`: what is wrong with a directive, by its text.
* `Template.check_exact`: the property.
-/

namespace ModelLabels
set_option autoImplicit false

/-! ## Blanks -/

theorem isAlphanum_of_isBlank {c : Char} (h : isBlank c = true) : c.isAlphanum = false := by
  rw [← Bool.not_eq_true]
  intro hc
  simp only [isBlank, inRanges, blankRanges, List.any_cons, List.any_nil, Bool.or_false,
    Bool.or_eq_true, Bool.and_eq_true, decide_eq_true_eq] at h
  change (decide ('A'.val ≤ c.val ∧ c.val ≤ 'Z'.val) ||
    (decide ('a'.val ≤ c.val) && decide (c.val ≤ 'z'.val)) ||
    (decide ('0'.val ≤ c.val) && decide (c.val ≤ '9'.val))) = true at hc
  simp only [Bool.or_eq_true, Bool.and_eq_true, decide_eq_true_eq, UInt32.le_iff_toNat_le] at hc
  have hval : c.val.toNat = c.toNat := rfl
  have hends : 'Z'.val.toNat = 90 ∧ 'z'.val.toNat = 122 ∧ '9'.val.toNat = 57 := by decide
  have hstarts : 'A'.val.toNat = 65 ∧ 'a'.val.toNat = 97 ∧ '0'.val.toNat = 48 := by decide
  omega

theorem isIdentRest_of_isBlank {c : Char} (h : isBlank c = true) : isIdentRest c = false := by
  have hmark : c ≠ '_' := by
    rintro rfl
    exact absurd h (by decide)
  simp [isIdentRest, isAlphanum_of_isBlank h, hmark]

theorem Keyword.blank_not_mem {k : Keyword} {cs : List Char} (h : k.isSpelledBy cs = true) {c : Char}
    (hc : isBlank c = true) : c ∉ cs := by
  intro hmem
  obtain ⟨l, hl, hform⟩ := exists_isForm h hmem
  rcases hform.isAlpha hl with halpha | rfl | rfl
  · have hnot := isAlphanum_of_isBlank hc
    rw [Char.isAlphanum, halpha] at hnot
    cases hnot
  all_goals exact absurd hc (by decide)

/-- No blank stands in a route. -/
theorem Route.Spelling.blank_not_mem {cs : List Char} {route : Route} (h : Spelling cs route)
    {c : Char} (hc : isBlank c = true) : c ∉ cs := by
  cases h with
  | current => exact List.not_mem_nil
  | along hk => exact Keyword.blank_not_mem hk hc
  | related hword _ hend =>
    rw [List.mem_append, List.mem_cons]
    rintro (hmem | rfl | hmem)
    · have hrest := isIdentRest_of_mem hword hmem
      rw [isIdentRest_of_isBlank hc] at hrest
      cases hrest
    · exact absurd hc (by decide)
    · exact Keyword.blank_not_mem hend hc hmem

/-! ## Where defects are found -/

namespace Route

/-- What is wrong with a route is found in it. -/
theorem start_of_read {start : Nat} {cs : List Char} {d : Spanned Defect}
    (h : read start cs = .error d) : start ≤ d.span.start ∧ d.span.start ≤ start + utf8Length cs := by
  obtain ⟨part, before, after, rfl, hspan⟩ := marks_of_read h
  rw [hspan, utf8Length_append]
  exact ⟨Nat.le_add_right _ _, Nat.add_le_add_left (Nat.le_add_right _ _) _⟩

end Route

namespace Directive

/-! ## The defect behind a dollar sign -/

section Attempted
variable {dollar : Nat} {cs way rest : List Char} {d : Spanned Defect}

/-- What looks like a directive behind its dollar sign: a brace opens, and no other mark and no blank
stands before it. -/
def Attempted (cs : List Char) : Prop :=
  ∃ way rest, cs = way ++ '\x7b' :: rest ∧
    ∀ c ∈ way, c ≠ '\x7b' ∧ c ≠ '$' ∧ c ≠ '\x7d' ∧ isBlank c = false

/-- The defect that is reported for a dollar sign. -/
def defect? (dollar : Nat) (cs : List Char) : Option (Spanned Defect) :=
  match read dollar cs with
  | .ok _ => none
  | .error defect => defect

/-- Plain text is not reported. -/
theorem read_of_not_attempted (h : ¬ Attempted cs) : read dollar cs = .error none := by
  unfold read
  dsimp only
  split
  · rfl
  · rename_i c body hdrop
    split
    · rfl
    · rename_i hcut
      -- There is a brace behind the text, which so far is not cut; so there is a blank in it.
      obtain ⟨b, hb, hblank⟩ : ∃ b ∈ cs.takeWhile (· != '\x7b'), isBlank b = true := by
        by_contra hnone
        refine h ⟨_, body, eq_append_of_dropWhile_ne hdrop, fun b hb => ?_⟩
        have hopen : b ≠ '\x7b' := bne_iff_ne.1 (List.all_eq_true.1 List.all_takeWhile b hb)
        rw [isCut, Bool.not_eq_true, List.any_eq_false] at hcut
        have hmarks := hcut b hb
        simp only [Bool.or_eq_true, beq_iff_eq, not_or] at hmarks
        refine ⟨hopen, hmarks.1, hmarks.2, ?_⟩
        exact Bool.eq_false_iff.2 fun hblank => hnone ⟨b, hb, hblank⟩
      split
      · rw [if_pos (List.any_eq_true.2 ⟨b, hb, hblank⟩)]
      · rename_i route hroute
        exact absurd hb ((Route.read_eq_ok_iff.1 hroute).blank_not_mem hblank)

/-- An attempted directive is read, or one defect is found between the dollar sign and the brace. -/
theorem read_of_attempted (dollar : Nat) (hcs : cs = way ++ '\x7b' :: rest)
    (hway : ∀ c ∈ way, c ≠ '\x7b' ∧ c ≠ '$' ∧ c ≠ '\x7d' ∧ isBlank c = false) :
    (∃ r, read dollar cs = .ok r) ∨ ∃ d, read dollar cs = .error (some d) ∧
      dollar ≤ d.span.start ∧ d.span.start ≤ dollar + 1 + utf8Length way := by
  have hopen : '\x7b' ∉ way := fun hmem => (hway _ hmem).1 rfl
  have hcut : isCut way = false := by
    rw [isCut, List.any_eq_false]
    intro c hc
    simp [(hway c hc).2.1, (hway c hc).2.2.1]
  have hblank : way.any isBlank = false := by
    rw [List.any_eq_false]
    exact fun c hc => Bool.eq_false_iff.1 (hway c hc).2.2.2
  rw [hcs]
  unfold read
  simp only [takeWhile_ne_append hopen, dropWhile_ne_append hopen, hcut, hblank, Bool.false_eq_true,
    if_false]
  split
  · rename_i defect hroute
    have hbounds := Route.start_of_read hroute
    exact .inr ⟨defect, rfl, by omega, by omega⟩
  · split
    · rename_i defect hattr
      refine .inr ⟨defect, rfl, ?_⟩
      unfold readAttribute at hattr
      dsimp only at hattr
      split at hattr
      · cases hattr
        dsimp only
        omega
      · split at hattr
        · cases hattr
        · cases hattr
          dsimp only
          omega
    · exact .inl ⟨_, rfl⟩

theorem defect?_of_not_attempted (h : ¬ Attempted cs) : defect? dollar cs = none := by
  rw [defect?, read_of_not_attempted h]

/-- What is reported for a dollar sign is found behind it, before any other dollar sign. -/
theorem start_of_defect? (h : defect? dollar cs = some d) : Attempted cs ∧ dollar ≤ d.span.start ∧
    d.span.start < dollar + 1 + utf8Length (cs.takeWhile (· != '$')) := by
  by_cases hattempted : Attempted cs
  · refine ⟨hattempted, ?_⟩
    obtain ⟨way, rest, hcs, hway⟩ := hattempted
    have hlength : utf8Length (cs.takeWhile (· != '$')) =
        utf8Length way + 1 + utf8Length (rest.takeWhile (· != '$')) := by
      have hne : ∀ c ∈ way, (c != '$') = true := fun c hc => bne_iff_ne.2 (hway c hc).2.1
      have hbrace : ('\x7b').utf8Size = 1 := by decide
      rw [hcs, List.takeWhile_append_of_pos hne, List.takeWhile_cons_of_pos (by decide),
        utf8Length_append, utf8Length_cons, hbrace, Nat.add_assoc]
    unfold defect? at h
    rcases read_of_attempted dollar hcs hway with ⟨r, hr⟩ | ⟨e, he, hstart, hle⟩
    · rw [hr] at h
      cases h
    · rw [he] at h
      cases h
      omega
  · rw [defect?_of_not_attempted hattempted] at h
    cases h

end Attempted

end Directive

/-! ## The defects of a text -/

theorem utf8Length_takeWhile_le {c : Char} (before after : List Char) :
    utf8Length ((before ++ c :: after).takeWhile (· != c)) ≤ utf8Length before := by
  induction before with
  | nil => simp
  | cons b before ih =>
    by_cases hb : b = c
    · simp [hb]
    · rw [List.cons_append, List.takeWhile_cons_of_pos (by simp [hb]), utf8Length_cons,
        utf8Length_cons]
      omega

namespace Template
open Directive

section BehindDollars
variable {α : Type} {found : Nat → List Char → List α} {pos : Nat} {cs xs : List Char} {x : α}

/-- What is found behind the dollar signs of a text whose first byte is at `pos`, from the first one to the
last. -/
def behindDollars (found : Nat → List Char → List α) (pos : Nat) : List Char → List α
  | [] => []
  | c :: cs => (if c = '$' then found pos cs else []) ++ behindDollars found (pos + c.utf8Size) cs

theorem behindDollars_append (h : '$' ∉ xs) :
    behindDollars found pos (xs ++ cs) = behindDollars found (pos + utf8Length xs) cs := by
  induction xs generalizing pos with
  | nil => rfl
  | cons x xs ih =>
    obtain ⟨hx, hxs⟩ := not_or.1 (fun hmem => h (List.mem_cons.2 hmem))
    rw [List.cons_append, behindDollars, if_neg (Ne.symm hx), List.nil_append, ih hxs, utf8Length_cons,
      Nat.add_assoc]

theorem exists_of_mem_behindDollars (h : x ∈ behindDollars found pos cs) :
    ∃ before after, cs = before ++ '$' :: after ∧ x ∈ found (pos + utf8Length before) after := by
  induction cs generalizing pos with
  | nil => cases h
  | cons c cs ih =>
    rcases List.mem_append.1 h with hown | hmore
    · by_cases hc : c = '$'
      · rw [if_pos hc] at hown
        exact ⟨[], cs, by rw [hc, List.nil_append], hown⟩
      · rw [if_neg hc] at hown
        cases hown
    · obtain ⟨before, after, rfl, hx⟩ := ih hmore
      refine ⟨c :: before, after, rfl, ?_⟩
      rwa [utf8Length_cons, ← Nat.add_assoc]

end BehindDollars

/-- The defects of a text, each as if its dollar sign were the first one. -/
def defectsFrom (pos : Nat) (cs : List Char) : List (Spanned Defect) :=
  behindDollars (fun dollar after => (defect? dollar after).toList) pos cs

section Defects
variable {pos : Nat} {cs xs body : List Char} {d : Spanned Defect}

theorem defectsFrom_cons (pos : Nat) (c : Char) (cs : List Char) : defectsFrom pos (c :: cs) =
    (if c = '$' then (defect? pos cs).toList else []) ++ defectsFrom (pos + c.utf8Size) cs := rfl

theorem defectsFrom_append (h : '$' ∉ xs) :
    defectsFrom pos (xs ++ cs) = defectsFrom (pos + utf8Length xs) cs := behindDollars_append h

/-- A directive has no defects, and the next ones are found behind its end. -/
theorem defectsFrom_of_written {directive : Directive} (h : Written pos body directive) :
    defectsFrom pos (body ++ cs) = defectsFrom (pos + utf8Length body) cs := by
  obtain ⟨inner, rfl, hinner⟩ := h.cons
  have hnone : defect? pos (inner ++ cs) = none := by rw [defect?, h.read]
  rw [List.cons_append, defectsFrom_cons, if_pos rfl, hnone, Option.toList_none, List.nil_append,
    defectsFrom_append hinner, utf8Length_cons, Nat.add_assoc]

/-- Reading finds the defects of all dollar signs, those that it skips within directives included. -/
theorem defects_scanFrom (pos : Nat) (cs : List Char) :
    (scanFrom pos cs).defects = defectsFrom pos cs := by
  fun_induction scanFrom pos cs with
  | case1 pos => rfl
  | case2 pos rest r hread tail ih =>
    obtain ⟨body, hbody, hwritten, hstop⟩ := read_eq_ok_iff.1 hread
    rw [hbody, defectsFrom_of_written hwritten, ← hstop]
    exact ih
  | case3 pos rest defect hread tail ih =>
    have hdefect : defect? pos rest = defect := by rw [defect?, hread]
    rw [defectsFrom_cons, if_pos rfl, hdefect, ← ih]
  | case4 pos c rest hc tail ih => rw [defectsFrom_cons, if_neg hc, List.nil_append, ← ih]

theorem exists_of_mem_defectsFrom (h : d ∈ defectsFrom pos cs) :
    ∃ before after, cs = before ++ '$' :: after ∧ defect? (pos + utf8Length before) after = some d := by
  obtain ⟨before, after, hcs, hd⟩ := exists_of_mem_behindDollars h
  exact ⟨before, after, hcs, Option.mem_toList.1 hd⟩

/-- No defect is found before the first dollar sign. -/
theorem start_of_mem_defectsFrom (h : d ∈ defectsFrom pos cs) :
    pos + utf8Length (cs.takeWhile (· != '$')) ≤ d.span.start := by
  obtain ⟨before, after, rfl, hd⟩ := exists_of_mem_defectsFrom h
  obtain ⟨-, hstart, -⟩ := start_of_defect? hd
  have hle : utf8Length ((before ++ '$' :: after).takeWhile (· != '$')) ≤ utf8Length before :=
    utf8Length_takeWhile_le before after
  omega

/-- Whether a byte is that of a dollar sign, or behind it and before the next one. -/
def isBehind (dollar : Nat) (cs : List Char) (start : Nat) : Bool :=
  dollar ≤ start && start < dollar + 1 + utf8Length (cs.takeWhile (· != '$'))

theorem isBehind_iff {dollar start : Nat} : isBehind dollar cs start = true ↔
    dollar ≤ start ∧ start < dollar + 1 + utf8Length (cs.takeWhile (· != '$')) := by
  simp [isBehind]

/-- Behind a dollar sign of a text its own defect is found and no other one. -/
theorem filter_defectsFrom (pos : Nat) (before after : List Char) :
    let dollar := pos + utf8Length before
    (defectsFrom pos (before ++ '$' :: after)).filter (fun d => isBehind dollar after d.span.start) =
      (defect? dollar after).toList := by
  have hdollar : ('$').utf8Size = 1 := by decide
  induction before generalizing pos with
  | nil =>
    dsimp only
    rw [utf8Length_nil, Nat.add_zero, List.nil_append, defectsFrom_cons, if_pos rfl, hdollar,
      List.filter_append, List.filter_eq_self.2, List.filter_eq_nil_iff.2, List.append_nil]
    · intro d hd
      have hle := start_of_mem_defectsFrom hd
      rw [isBehind_iff]
      omega
    · intro d hd
      obtain ⟨-, hbounds⟩ := start_of_defect? (Option.mem_toList.1 hd)
      exact isBehind_iff.2 hbounds
  | cons c before ih =>
    dsimp only at ih ⊢
    rw [List.cons_append, defectsFrom_cons, utf8Length_cons, ← Nat.add_assoc, List.filter_append, ih,
      List.filter_eq_nil_iff.2, List.nil_append]
    intro d hd
    rw [isBehind_iff]
    by_cases hc : c = '$'
    · rw [if_pos hc] at hd
      obtain ⟨-, -, hstart⟩ := start_of_defect? (Option.mem_toList.1 hd)
      have hle : utf8Length ((before ++ '$' :: after).takeWhile (· != '$')) ≤ utf8Length before :=
        utf8Length_takeWhile_le before after
      have hsize := c.utf8Size_pos
      omega
    · rw [if_neg hc] at hd
      cases hd

end Defects

end Template

/-! ## What is wrong with a directive -/

/-- Whether a text names an attribute that can be rendered. -/
def Attribute.isSupported (word : List Char) : Bool :=
  ["type", "name", "documentation", "id", "content"].contains (String.ofList word) ||
    propertyMark.isPrefixOf word

/-- A well-formed attribute is unknown exactly if its text is not supported. -/
theorem Attribute.Spelling.isSupported {word : List Char} {a : Attribute} (h : Spelling word a) :
    (Attribute.isSupported word = true ∧ ∀ w, a ≠ .unknown w) ∨
      (Attribute.isSupported word = false ∧ a = .unknown (String.ofList word)) := by
  cases h with
  | property hne hkey =>
    refine .inl ⟨?_, nofun⟩
    rw [Attribute.isSupported, List.isPrefixOf_iff_prefix.2 (List.prefix_append _ _), Bool.or_true]
  | word hne hword =>
    -- A word has no colon, so it is supported only by its name.
    have hmark : propertyMark.isPrefixOf word = false := by
      rw [Bool.eq_false_iff]
      intro hmark
      have hcolon : ':' ∈ word := (List.isPrefixOf_iff_prefix.1 hmark).subset (by decide)
      exact absurd (hword _ hcolon) (by decide)
    rw [Attribute.isSupported, hmark, Bool.or_false]
    generalize String.ofList word = w
    by_cases hnamed : w ∈ ["type", "name", "documentation", "id", "content"]
    · refine .inl ⟨by simpa using hnamed, ?_⟩
      simp only [List.mem_cons, List.not_mem_nil, or_false] at hnamed
      rcases hnamed with rfl | rfl | rfl | rfl | rfl
      all_goals exact nofun
    · refine .inr ⟨by simpa using hnamed, ?_⟩
      simp only [List.mem_cons, List.not_mem_nil, or_false, not_or] at hnamed
      simp [ofWord, named, text, hnamed, Ne.symm]

namespace Directive

/-- What is wrong with a directive, by the texts of its route and of its attribute: the word before the
colon of the route is no relationship keyword, or the attribute cannot be rendered. -/
def problems (dollar : Nat) (way word : List Char) : List Warning :=
  let keyword := String.ofList (way.takeWhile (· != ':'))
  let attr := dollar + 1 + utf8Length way + 1
  (if way.contains ':' && (RelationshipType.ofKeyword? keyword).isNone then
    [.unknownRelation keyword ⟨dollar + 1, dollar + 1 + keyword.utf8ByteSize⟩] else []) ++
  if Attribute.isSupported word then []
  else [.unknownAttribute (String.ofList word) ⟨attr, attr + utf8Length word⟩]

section Problems
variable {dollar : Nat} {way word : List Char} {route : Route} {attr : Attribute}

theorem relationWarnings_eq (hroute : Route.Spelling way route) {stop : Nat} {a : Spanned Attribute} :
    relationWarnings ⟨⟨route, ⟨dollar + 1, stop⟩⟩, a⟩ =
      let keyword := String.ofList (way.takeWhile (· != ':'))
      if way.contains ':' && (RelationshipType.ofKeyword? keyword).isNone then
        [.unknownRelation keyword ⟨dollar + 1, dollar + 1 + keyword.utf8ByteSize⟩] else [] := by
  have hcolon : ':' ∈ delimiters := by decide
  cases hroute with
  | current => rfl
  | along hk =>
    have hnot : way.contains ':' = false := by
      simpa using Keyword.delimiter_not_mem hk hcolon
    rw [hnot]
    rfl
  | @related keyword ending e hident _ _ =>
    have htake : (keyword ++ ':' :: ending).takeWhile (· != ':') = keyword :=
      takeWhile_ne_append (delimiter_not_mem_of_isIdent hident hcolon)
    have hcontains : (keyword ++ ':' :: ending).contains ':' = true := by simp
    dsimp only
    rw [htake, hcontains, Bool.true_and, relationWarnings]
    cases hrel : RelationshipType.ofKeyword? (String.ofList keyword) with
    | some t => simp [Relation.ofKeyword, hrel]
    | none => simp [Relation.ofKeyword, hrel]

theorem attributeWarnings_eq (hattr : Attribute.Spelling word attr) {r : Spanned Route}
    {span : Span} : attributeWarnings ⟨r, ⟨attr, span⟩⟩ =
      if Attribute.isSupported word then [] else [.unknownAttribute (String.ofList word) span] := by
  rcases hattr.isSupported with ⟨hsupported, hknown⟩ | ⟨hnot, rfl⟩
  · rw [if_pos hsupported]
    cases attr with
    | unknown w => exact absurd rfl (hknown w)
    | _ => rfl
  · rw [if_neg (Bool.eq_false_iff.1 hnot)]
    rfl

/-- A directive is reported for what is wrong with the texts under its two spans. -/
theorem Written.warnings_eq {body : List Char} {d : Directive} (h : Written dollar body d) :
    ∃ way word, body = '$' :: (way ++ '\x7b' :: (word ++ ['\x7d'])) ∧
      d.route.span = ⟨dollar + 1, dollar + 1 + utf8Length way⟩ ∧
      d.attr.span = ⟨d.route.span.stop + 1, d.route.span.stop + 1 + utf8Length word⟩ ∧
      d.warnings = problems dollar way word := by
  cases h with
  | @mk way word route attr hroute hattr =>
    refine ⟨way, word, rfl, rfl, rfl, ?_⟩
    rw [warnings, relationWarnings_eq hroute, attributeWarnings_eq hattr]
    rfl

end Problems

end Directive

/-! ## The property -/

/-- Whether a warning is about a dollar sign that starts no directive. -/
def Warning.isMalformed : Warning → Bool
  | malformed _ _ => true
  | _ => false

namespace Template
open Directive

/-- The warnings about attempted directives that are behind a dollar sign, before the next one. -/
def malformedAt (text : String) (dollar : Nat) (after : List Char) : List Warning :=
  (check text).filter fun w => w.isMalformed && isBehind dollar after w.span.start

theorem check_perm (text : String) : (check text).Perm
    ((defectsFrom 0 text.toList).map (fun d => .malformed d.node d.span) ++
      (ofString text).directives.flatMap (·.node.warnings)) := by
  have hperm : (check text).Perm (unsortedWarnings (scan text)) := List.mergeSort_perm _ _
  rw [unsortedWarnings, scan, defects_scanFrom] at hperm
  exact hperm

theorem isMalformed_of_mem_warnings {d : Directive} {w : Warning} (h : w ∈ d.warnings) :
    w.isMalformed = false := by
  rcases List.mem_append.1 h with h | h
  · unfold relationWarnings at h
    split at h
    · rw [List.mem_singleton.1 h]
      rfl
    · cases h
  · unfold attributeWarnings at h
    split at h
    · rw [List.mem_singleton.1 h]
      rfl
    · cases h

/-- A list whose elements are told apart by a property is divided by it. -/
theorem filter_perm_of_perm_append {α : Type} {p : α → Bool} {xs first second : List α}
    (h : xs.Perm (first ++ second)) (hfirst : ∀ x ∈ first, p x = true)
    (hsecond : ∀ x ∈ second, p x = false) :
    (xs.filter p).Perm first ∧ (xs.filter (!p ·)).Perm second := by
  have hdrop : second.filter p = [] :=
    List.filter_eq_nil_iff.2 fun x hx => Bool.eq_false_iff.1 (hsecond x hx)
  have hkeep : second.filter (!p ·) = second :=
    List.filter_eq_self.2 fun x hx => by rw [hsecond x hx, Bool.not_false]
  have hnone : first.filter (!p ·) = [] :=
    List.filter_eq_nil_iff.2 fun x hx => by simp [hfirst x hx]
  have hleft := h.filter p
  have hright := h.filter (!p ·)
  rw [List.filter_append, List.filter_eq_self.2 hfirst, hdrop, List.append_nil] at hleft
  rw [List.filter_append, hnone, hkeep, List.nil_append] at hright
  exact ⟨hleft, hright⟩

/-- The warnings about attempted directives are those about the defects of the text, and the others those
about its directives. -/
theorem filter_check_perm (text : String) :
    ((check text).filter (·.isMalformed)).Perm
        ((defectsFrom 0 text.toList).map fun d => .malformed d.node d.span) ∧
      ((check text).filter (!·.isMalformed)).Perm
        ((ofString text).directives.flatMap (·.node.warnings)) := by
  refine filter_perm_of_perm_append (check_perm text) (fun w hw => ?_) fun w hw => ?_
  · obtain ⟨d, -, rfl⟩ := List.mem_map.1 hw
    rfl
  · obtain ⟨s, -, hs⟩ := List.mem_flatMap.1 hw
    exact isMalformed_of_mem_warnings hs

section Dollar
variable {text : String} {before after : List Char}

/-- What is reported for a dollar sign is its own defect. -/
theorem malformedAt_eq (htext : text.toList = before ++ '$' :: after) :
    malformedAt text (utf8Length before) after =
      (defect? (utf8Length before) after).toList.map fun d => .malformed d.node d.span := by
  have hown := filter_defectsFrom 0 before after
  rw [Nat.zero_add, ← htext] at hown
  have hperm := (filter_check_perm text).1.filter
    fun w => isBehind (utf8Length before) after w.span.start
  rw [List.filter_filter, List.filter_map] at hperm
  have hfilter : malformedAt text (utf8Length before) after = (check text).filter fun w =>
      isBehind (utf8Length before) after w.span.start && w.isMalformed :=
    List.filter_congr fun w _ => Bool.and_comm _ _
  rw [← hfilter] at hperm
  have hsame : (defectsFrom 0 text.toList).filter ((fun w : Warning =>
      isBehind (utf8Length before) after w.span.start) ∘ fun d => .malformed d.node d.span) =
      (defect? (utf8Length before) after).toList := hown
  rw [hsame] at hperm
  cases hdefect : defect? (utf8Length before) after with
  | none =>
    rw [hdefect] at hperm
    exact hperm.eq_nil
  | some d =>
    rw [hdefect] at hperm
    exact List.perm_singleton.1 hperm

/-- A directive starts at a dollar sign exactly if one is read behind it. -/
theorem exists_directive_iff (htext : text.toList = before ++ '$' :: after) :
    (∃ s ∈ (ofString text).directives, s.span.start = utf8Length before) ↔
      ∃ r, Directive.read (utf8Length before) after = .ok r := by
  constructor
  · rintro ⟨s, hs, hstart⟩
    obtain ⟨before', body, rest, hbefore, hspan, hwritten⟩ := mem_directives_scanFrom.1 hs
    rw [hstart] at hwritten
    obtain ⟨inner, rfl, -⟩ := hwritten.cons
    have hlength : utf8Length before = utf8Length before' := by
      rw [← hstart, hspan, Nat.zero_add]
    obtain ⟨rfl, hafter⟩ := append_inj_of_utf8Length (htext.symm.trans hbefore) hlength
    obtain ⟨-, rfl⟩ := List.cons.inj hafter
    exact ⟨_, hwritten.read⟩
  · rintro ⟨r, hread⟩
    obtain ⟨body, hbody, hwritten, -⟩ := read_eq_ok_iff.1 hread
    refine ⟨⟨r.directive, ⟨utf8Length before, utf8Length before + utf8Length body⟩⟩, ?_, rfl⟩
    refine mem_directives_scanFrom.2 ⟨before, body, r.rest, ?_, ?_, hwritten⟩
    · rw [htext, hbody]
    · rw [Nat.zero_add]

end Dollar

theorem warnings_eq_nil {d : Directive}
    (hroute : ∀ keyword e, d.route.node ≠ .related (.unknown keyword) e)
    (hattr : ∀ word, d.attr.node ≠ .unknown word) : d.warnings = [] := by
  have hrelation : d.relationWarnings = [] := by
    unfold relationWarnings
    split
    · rename_i keyword e h
      exact absurd h (hroute keyword e)
    · rfl
  have hattribute : d.attributeWarnings = [] := by
    unfold attributeWarnings
    split
    · rename_i word h
      exact absurd h (hattr word)
    · rfl
  rw [warnings, hrelation, hattribute, List.append_nil]

/-- Whether a text has no dollar sign, or is a directive with a known relation and an attribute that can
be rendered. -/
def Clean (part : List Char) : Prop :=
  '$' ∉ part ∨ ∃ way word route attr, part = '$' :: (way ++ '\x7b' :: (word ++ ['\x7d'])) ∧
    Route.Spelling way route ∧ (∀ keyword e, route ≠ .related (.unknown keyword) e) ∧
    Attribute.Spelling word attr ∧ ∀ w, attr ≠ .unknown w

theorem clean_flatten (parts : List (List Char)) (h : ∀ part ∈ parts, Clean part) (pos : Nat) :
    defectsFrom pos parts.flatten = [] ∧
      ∀ s, Occurs pos parts.flatten s → s.node.warnings = [] := by
  induction parts generalizing pos with
  | nil => exact ⟨rfl, fun s hs => absurd hs not_occurs_nil⟩
  | cons part parts ih =>
    obtain ⟨hpart, hparts⟩ := List.forall_mem_cons.1 h
    obtain ⟨hdefects, hwarnings⟩ := ih hparts (pos + utf8Length part)
    rw [List.flatten_cons]
    rcases hpart with hplain | ⟨way, word, route, attr, rfl, hroute, hrelation, hattr, hattribute⟩
    · refine ⟨(defectsFrom_append hplain).trans hdefects, fun s hs => ?_⟩
      exact hwarnings s ((occurs_append hplain).1 hs)
    · have hwritten : Written pos _ _ := .mk hroute hattr
      refine ⟨(defectsFrom_of_written hwritten).trans hdefects, fun s hs => ?_⟩
      rcases (occurs_of_written hwritten).1 hs with rfl | hs
      · exact warnings_eq_nil hrelation hattribute
      · exact hwarnings s hs

theorem check_eq_nil {text : String} {parts : List (List Char)} (htext : text.toList = parts.flatten)
    (h : ∀ part ∈ parts, Clean part) : check text = [] := by
  obtain ⟨hdefects, hwarnings⟩ := clean_flatten parts h 0
  have hdirectives : (ofString text).directives.flatMap (·.node.warnings) = [] := by
    refine List.flatMap_eq_nil_iff.2 fun s hs => hwarnings s ?_
    rw [← htext]
    exact mem_directives_scanFrom.1 hs
  have hperm := check_perm text
  rw [htext, hdefects, hdirectives] at hperm
  exact hperm.eq_nil

/-- A dollar sign that looks like a directive starts one or has one warning about it, and any other one
neither.  There are no more warnings of this kind, and the others are what is wrong with the
directives, each by the texts under its own spans.  So a text without dollar signs but those of
directives with nothing wrong has none. -/
theorem check_exact (text : String) :
    (∀ before after, text.toList = before ++ '$' :: after →
      let dollar := utf8Length before
      let started := ∃ s ∈ (ofString text).directives, s.span.start = dollar
      (¬ Attempted after → ¬ started ∧ malformedAt text dollar after = []) ∧
      (Attempted after → (started ∧ malformedAt text dollar after = []) ∨
        (¬ started ∧ ∃ w, malformedAt text dollar after = [w]))) ∧
    (∀ w ∈ check text, w.isMalformed = true → ∃ before after, text.toList = before ++ '$' :: after ∧
      w ∈ malformedAt text (utf8Length before) after) ∧
    ((check text).filter (!·.isMalformed)).Perm
      ((ofString text).directives.flatMap (·.node.warnings)) ∧
    (∀ s ∈ (ofString text).directives, ∃ before way word after,
      text.toList = before ++ '$' :: (way ++ '\x7b' :: (word ++ '\x7d' :: after)) ∧
      s.span = ⟨utf8Length before, s.node.attr.span.stop + 1⟩ ∧
      s.node.route.span = ⟨s.span.start + 1, s.span.start + 1 + utf8Length way⟩ ∧
      s.node.attr.span =
        ⟨s.node.route.span.stop + 1, s.node.route.span.stop + 1 + utf8Length word⟩ ∧
      s.node.warnings = problems s.span.start way word) ∧
    ∀ parts : List (List Char), text.toList = parts.flatten → (∀ part ∈ parts, Clean part) →
      check text = [] := by
  refine ⟨fun before after htext => ?_, fun w hw hmalformed => ?_, (filter_check_perm text).2,
    fun s hs => ?_, fun parts htext hparts => check_eq_nil htext hparts⟩
  · dsimp only
    rw [malformedAt_eq htext, exists_directive_iff htext]
    constructor
    · intro hplain
      rw [read_of_not_attempted hplain, defect?_of_not_attempted hplain]
      exact ⟨nofun, rfl⟩
    · rintro ⟨way, rest, hafter, hway⟩
      unfold defect?
      rcases read_of_attempted (utf8Length before) hafter hway with ⟨r, hr⟩ | ⟨d, hd, -⟩
      · rw [hr]
        exact .inl ⟨⟨r, rfl⟩, rfl⟩
      · rw [hd]
        exact .inr ⟨nofun, _, rfl⟩
  · have hmem : w ∈ (check text).filter (·.isMalformed) := List.mem_filter.2 ⟨hw, hmalformed⟩
    obtain ⟨d, hd, rfl⟩ := List.mem_map.1 ((filter_check_perm text).1.mem_iff.1 hmem)
    obtain ⟨before, after, htext, hdefect⟩ := exists_of_mem_defectsFrom hd
    rw [Nat.zero_add] at hdefect
    refine ⟨before, after, htext, ?_⟩
    rw [malformedAt_eq htext, hdefect]
    exact List.mem_singleton.2 rfl
  · obtain ⟨before, body, after, htext, hspan, hwritten⟩ := mem_directives_scanFrom.1 hs
    have hstop := hwritten.stop_eq
    obtain ⟨way, word, rfl, hroute, hattr, hwarnings⟩ := hwritten.warnings_eq
    refine ⟨before, way, word, after, by rw [htext]; simp, ?_, hroute, hattr, hwarnings⟩
    rw [hstop, hspan, Nat.zero_add]

/-- Of two dollar signs in front of a brace only the second one is reported. -/
example : (check "$$x\x7bname\x7d").map Warning.span = [⟨3, 3⟩] := by decide +kernel

end Template

end ModelLabels
