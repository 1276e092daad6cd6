import Mathlib.Data.List.Nodup
import ModelLabels.Proofs.Template.Warnings
/-! # The places of warnings

The warnings of a template are what is reported behind its dollar signs, from the first one to the last.
Each of them starts before the next dollar sign, so sorting them by their starts leaves that order.  It
marks a part of the text, which for a warning about a word is that word.

* `Directive.marks_of_defect?`, `marks_of_mem_problems`: what is wrong with a directive is a part of it.
* `Template.warningsAt`, `Template.warningsFrom`: what is reported behind a dollar sign and in a text;
  `warningsAt_cases`, `marks_of_mem_warningsAt`, `marks_of_mem_check`.
* `Template.check_eq`: the warnings of a template are those behind its dollar signs, in their order.
* `Template.check_placed`: the property.
-/

namespace ModelLabels
set_option autoImplicit false

/-- The word a warning is about, if it is about one. -/
def Warning.word? : Warning → Option String
  | malformed _ _ => none
  | unknownRelation word _ | unknownAttribute word _ => some word

/-! ## What is wrong with a directive -/

namespace Directive

section Marks
variable {dollar : Nat} {way cs : List Char} {d : Spanned Defect}

/-- What is wrong with an attribute is all that follows the dollar sign, with it, or what stands between
the braces, with them. -/
theorem marks_of_readAttribute (h : readAttribute dollar (dollar + 1 + utf8Length way) cs = .error d) :
    ∃ part, d.span.Marks dollar ('$' :: (way ++ '\x7b' :: cs)) part := by
  have hsizes : ('$').utf8Size = 1 ∧ ('\x7b').utf8Size = 1 ∧ ('\x7d').utf8Size = 1 := by decide
  obtain ⟨hdollar, hopening, hclosing⟩ := hsizes
  unfold readAttribute at h
  dsimp only at h
  split at h
  · rename_i hdrop
    have hall := List.takeWhile_append_dropWhile (p := (· != '\x7d')) (l := cs)
    rw [hdrop, List.append_nil] at hall
    cases h
    refine ⟨'$' :: (way ++ '\x7b' :: cs), [], [], by simp, ?_⟩
    rw [hall]
    simp only [utf8Length_cons, utf8Length_append, utf8Length_nil, hdollar, hopening]
    congr 1
    omega
  · rename_i c rest hdrop
    have hcs := eq_append_of_dropWhile_ne hdrop
    split at h
    · cases h
    · cases h
      generalize cs.takeWhile (· != '\x7d') = inside at hcs ⊢
      refine ⟨'\x7b' :: (inside ++ ['\x7d']), '$' :: way, rest, by rw [hcs]; simp, ?_⟩
      simp only [utf8Length_cons, utf8Length_append, utf8Length_nil, hdollar, hopening, hclosing]
      congr 1
      all_goals omega

theorem defect?_eq_some_iff : defect? dollar cs = some d ↔ read dollar cs = .error (some d) := by
  unfold defect?
  cases read dollar cs with
  | ok r => simp
  | error defect => simp

/-- What is wrong behind a dollar sign is a part of what stands there. -/
theorem marks_of_defect? (h : defect? dollar cs = some d) :
    ∃ part, d.span.Marks dollar ('$' :: cs) part := by
  have hdollar : ('$').utf8Size = 1 := by decide
  rw [defect?_eq_some_iff] at h
  unfold read at h
  dsimp only at h
  split at h
  · cases h
  · rename_i c body hdrop
    have hcs := eq_append_of_dropWhile_ne hdrop
    split at h
    · cases h
    · split at h
      · rename_i defect hroute
        split at h
        · cases h
        · cases h
          obtain ⟨part, hpart⟩ := Route.marks_of_read hroute
          have hat : d.span.Marks (dollar + utf8Length ['$']) (cs.takeWhile (· != '\x7b')) part := by
            rwa [utf8Length_cons, utf8Length_nil, hdollar]
          refine ⟨part, ?_⟩
          rw [hcs]
          exact hat.within
      · split at h
        · rename_i hattr
          cases h
          rw [hcs]
          exact marks_of_readAttribute hattr
        · cases h

end Marks

section Problems
variable {dollar : Nat} {way word : List Char} {w : Warning}

theorem mem_problems (h : w ∈ problems dollar way word) :
    (∃ keyword more, way = keyword ++ more ∧ w = .unknownRelation (String.ofList keyword)
      ⟨dollar + 1, dollar + 1 + utf8Length keyword⟩) ∨
    w = .unknownAttribute (String.ofList word)
      ⟨dollar + 1 + utf8Length way + 1, dollar + 1 + utf8Length way + 1 + utf8Length word⟩ := by
  rcases List.mem_append.1 h with hrelation | hattribute
  · split at hrelation
    · have hway := List.takeWhile_append_dropWhile (p := (· != ':')) (l := way)
      refine .inl ⟨_, _, hway.symm, ?_⟩
      rw [List.mem_singleton.1 hrelation, utf8ByteSize_eq, String.toList_ofList]
    · cases hrelation
  · split at hattribute
    · cases hattribute
    · exact .inr (List.mem_singleton.1 hattribute)

/-- What is wrong with a directive is a word of it. -/
theorem marks_of_mem_problems (h : w ∈ problems dollar way word) (rest : List Char) :
    ∃ part, w.span.Marks dollar ('$' :: (way ++ '\x7b' :: (word ++ rest))) part ∧
      w.word? = some (String.ofList part) := by
  have hsizes : ('$').utf8Size = 1 ∧ ('\x7b').utf8Size = 1 := by decide
  obtain ⟨hdollar, hopening⟩ := hsizes
  rcases mem_problems h with ⟨keyword, more, rfl, rfl⟩ | rfl
  · refine ⟨keyword, ⟨['$'], more ++ '\x7b' :: (word ++ rest), by simp, ?_⟩, rfl⟩
    rw [utf8Length_cons, utf8Length_nil, hdollar]
    rfl
  · refine ⟨word, ⟨'$' :: (way ++ ['\x7b']), rest, by simp, ?_⟩, rfl⟩
    have hlength : utf8Length ('$' :: (way ++ ['\x7b'])) = 1 + utf8Length way + 1 := by
      simp only [utf8Length_cons, utf8Length_append, utf8Length_nil, hdollar, hopening]
      omega
    rw [hlength, ← Nat.add_assoc, ← Nat.add_assoc]
    rfl

/-- The relation of a directive stands before its attribute. -/
theorem problems_sorted (dollar : Nat) (way word : List Char) :
    (problems dollar way word).Pairwise fun v w => v.span.start < w.span.start := by
  refine List.pairwise_append.2 ⟨?_, ?_, fun v hv w hw => ?_⟩
  · split
    · exact List.pairwise_singleton _ _
    · exact .nil
  · split
    · exact .nil
    · exact List.pairwise_singleton _ _
  · split at hv
    · split at hw
      · cases hw
      · rw [List.mem_singleton.1 hv, List.mem_singleton.1 hw]
        change dollar + 1 < dollar + 1 + utf8Length way + 1
        omega
    · cases hv

end Problems

end Directive

/-! ## What is reported behind a dollar sign -/

namespace Template
open Directive

/-- What is reported for a dollar sign: what is wrong with the directive that it starts, or why it
starts none. -/
def warningsAt (dollar : Nat) (after : List Char) : List Warning :=
  match Directive.read dollar after with
  | .ok r => r.directive.warnings
  | .error defect => defect.toList.map fun d => .malformed d.node d.span

section WarningsAt
variable {dollar : Nat} {after : List Char} {w : Warning}

/-- Behind a dollar sign there is a directive, or what is reported is the defect. -/
theorem warningsAt_cases (dollar : Nat) (after : List Char) :
    (∃ way word rest, after = way ++ '\x7b' :: (word ++ '\x7d' :: rest) ∧
      '$' ∉ way ++ '\x7b' :: word ∧ warningsAt dollar after = problems dollar way word) ∨
    warningsAt dollar after = (defect? dollar after).toList.map fun d => .malformed d.node d.span := by
  unfold warningsAt defect?
  cases hread : Directive.read dollar after with
  | ok r =>
    obtain ⟨body, hbody, hwritten, -⟩ := read_eq_ok_iff.1 hread
    obtain ⟨inner, hinner, hnot⟩ := hwritten.cons
    obtain ⟨way, word, rfl, -, -, hproblems⟩ := hwritten.warnings_eq
    obtain rfl := (List.cons.inj hinner).2
    refine .inl ⟨way, word, r.rest, by simpa using hbody, fun hmem => hnot ?_, hproblems⟩
    have hparts : way ++ '\x7b' :: (word ++ ['\x7d']) = (way ++ '\x7b' :: word) ++ ['\x7d'] := by simp
    exact hparts ▸ List.mem_append_left _ hmem
  | error defect => exact .inr rfl

theorem warningsAt_sorted (dollar : Nat) (after : List Char) :
    (warningsAt dollar after).Pairwise fun v w => v.span.start < w.span.start := by
  rcases warningsAt_cases dollar after with ⟨way, word, rest, -, -, hat⟩ | hat
  · rw [hat]
    exact problems_sorted dollar way word
  · rw [hat]
    cases defect? dollar after with
    | none => exact .nil
    | some d => exact List.pairwise_singleton _ _

theorem start_of_mem_warningsAt (h : w ∈ warningsAt dollar after) : dollar ≤ w.span.start ∧
    w.span.start < dollar + 1 + utf8Length (after.takeWhile (· != '$')) := by
  rcases warningsAt_cases dollar after with ⟨way, word, rest, rfl, hnot, hat⟩ | hat
  · rw [hat] at h
    -- There is no dollar sign before the end of the attribute, and a brace before its start.
    have hne : ∀ c ∈ way ++ '\x7b' :: word, (c != '$') = true :=
      fun c hc => bne_iff_ne.2 fun he => hnot (he ▸ hc)
    have hlength : utf8Length (way ++ '\x7b' :: word) = utf8Length way + (1 + utf8Length word) := by
      have hopening : ('\x7b').utf8Size = 1 := by decide
      rw [utf8Length_append, utf8Length_cons, hopening]
    have hparts : way ++ '\x7b' :: (word ++ '\x7d' :: rest) =
        (way ++ '\x7b' :: word) ++ '\x7d' :: rest := by simp
    have hclosing : 0 < utf8Length (('\x7d' :: rest).takeWhile (· != '$')) := by
      rw [List.takeWhile_cons_of_pos (by decide), utf8Length_cons]
      exact Nat.add_pos_left (Char.utf8Size_pos _) _
    rw [hparts, List.takeWhile_append_of_pos hne, utf8Length_append, hlength]
    rcases mem_problems h with ⟨keyword, more, -, rfl⟩ | rfl
    all_goals
      dsimp only [Warning.span]
      omega
  · rw [hat] at h
    obtain ⟨d, hd, rfl⟩ := List.mem_map.1 h
    exact (start_of_defect? (Option.mem_toList.1 hd)).2

/-- What is reported behind a dollar sign marks a part of what stands there; if it is about a word, it
marks that word. -/
theorem marks_of_mem_warningsAt (h : w ∈ warningsAt dollar after) :
    ∃ part, w.span.Marks dollar ('$' :: after) part ∧
      ∀ s, w.word? = some s → String.ofList part = s := by
  rcases warningsAt_cases dollar after with ⟨way, word, rest, rfl, -, hat⟩ | hat
  · rw [hat] at h
    obtain ⟨part, hpart, hword⟩ := marks_of_mem_problems h ('\x7d' :: rest)
    exact ⟨part, hpart, fun s hs => Option.some.inj (hword.symm.trans hs)⟩
  · rw [hat] at h
    obtain ⟨d, hd, rfl⟩ := List.mem_map.1 h
    obtain ⟨part, hpart⟩ := marks_of_defect? (Option.mem_toList.1 hd)
    exact ⟨part, hpart, fun s hs => nomatch hs⟩

end WarningsAt

/-! ## The order of warnings -/

/-- What is reported for the dollar signs of a text, from the first one to the last. -/
def warningsFrom (pos : Nat) (cs : List Char) : List Warning := behindDollars warningsAt pos cs

theorem warningsFrom_sorted (pos : Nat) (cs : List Char) :
    (warningsFrom pos cs).Pairwise fun v w => v.span.start < w.span.start := by
  have hdollar : ('$').utf8Size = 1 := by decide
  induction cs generalizing pos with
  | nil => exact .nil
  | cons c cs ih =>
    refine List.pairwise_append.2 ⟨?_, ih _, fun v hv w hw => ?_⟩
    · split
      · exact warningsAt_sorted pos cs
      · exact .nil
    · split at hv
      · rename_i hc
        -- The next dollar sign is behind all that is reported for this one.
        obtain ⟨before, after, rfl, hafter⟩ := exists_of_mem_behindDollars hw
        obtain ⟨-, hlt⟩ := start_of_mem_warningsAt hv
        obtain ⟨hle, -⟩ := start_of_mem_warningsAt hafter
        have hwhile : utf8Length ((before ++ '$' :: after).takeWhile (· != '$')) ≤ utf8Length before :=
          utf8Length_takeWhile_le before after
        rw [hc, hdollar] at hle
        omega
      · cases hv

/-- Reading a text finds what is reported for each of its dollar signs, those that it skips within
directives included. -/
theorem warningsFrom_perm (pos : Nat) (cs : List Char) :
    (warningsFrom pos cs).Perm (unsortedWarnings (scanFrom pos cs)) := by
  unfold warningsFrom unsortedWarnings directives
  fun_induction scanFrom pos cs with
  | case1 pos => exact .nil
  | case2 pos rest r hread tail ih =>
    obtain ⟨body, hbody, hwritten, hstop⟩ := read_eq_ok_iff.1 hread
    obtain ⟨inner, rfl, hinner⟩ := hwritten.cons
    obtain rfl : rest = inner ++ r.rest := (List.cons.inj hbody).2
    have hown : warningsAt pos (inner ++ r.rest) = r.directive.warnings := by rw [warningsAt, hread]
    rw [behindDollars, if_pos rfl, hown, behindDollars_append hinner, Nat.add_assoc, ← utf8Length_cons,
      ← hstop, List.filterMap_cons]
    exact (ih.append_left _).trans (List.perm_append_comm_assoc _ _ _)
  | case3 pos rest defect hread tail ih =>
    have hown : warningsAt pos rest = defect.toList.map fun d => .malformed d.node d.span := by
      rw [warningsAt, hread]
    rw [behindDollars, if_pos rfl, hown, filterMap_directive?_push, List.map_append, List.append_assoc]
    exact ih.append_left _
  | case4 pos c rest hc tail ih =>
    rw [behindDollars, if_neg hc, List.nil_append, filterMap_directive?_push]
    exact ih

/-- The warnings of a template are what is reported for its dollar signs, from the first one to the
last. -/
theorem check_eq (text : String) : check text = warningsFrom 0 text.toList := by
  have hsorted := warningsFrom_sorted 0 text.toList
  have hperm : (check text).Perm (warningsFrom 0 text.toList) :=
    (List.mergeSort_perm _ _).trans (warningsFrom_perm 0 text.toList).symm
  have hcheck : (check text).Pairwise fun v w => v.span.start ≤ w.span.start := by
    refine List.Pairwise.imp of_decide_eq_true ?_
    refine List.pairwise_mergeSort (fun a b c => ?_) (fun a b => ?_) _
    · simp only [decide_eq_true_eq]
      exact Nat.le_trans
    · simpa only [Bool.or_eq_true, decide_eq_true_eq] using Nat.le_total _ _
  -- No two warnings start at one byte, so their starts leave only one order.
  have hnodup : ((warningsFrom 0 text.toList).map fun w => w.span.start).Nodup :=
    List.pairwise_map.2 (hsorted.imp Nat.ne_of_lt)
  refine List.Perm.eq_of_pairwise (fun v w hv hw hvw hwv => ?_) hcheck (hsorted.imp Nat.le_of_lt) hperm
  exact List.inj_on_of_nodup_map hnodup (hperm.mem_iff.1 hv) hw (Nat.le_antisymm hvw hwv)

/-- A warning of a template marks a part of it; if it is about a word, it marks that word. -/
theorem marks_of_mem_check {text : String} {w : Warning} (h : w ∈ check text) :
    ∃ part, w.span.Marks 0 text.toList part ∧ ∀ s, w.word? = some s → String.ofList part = s := by
  rw [check_eq] at h
  obtain ⟨before, after, htext, hat⟩ := exists_of_mem_behindDollars h
  obtain ⟨part, hpart, hword⟩ := marks_of_mem_warningsAt hat
  have hwithin : w.span.Marks 0 (before ++ ('$' :: after ++ [])) part := hpart.within
  rw [List.append_nil, ← htext] at hwithin
  exact ⟨part, hwithin, hword⟩

/-! ## The property -/

/-- A warning is placed as it should be: it begins and ends between characters of the text, and begins at
the dollar sign that it reports or behind it, before the next one.  A warning about a word marks that
word. -/
structure Placed (text : String) (w : Warning) : Prop where
  start_le_stop : w.span.start ≤ w.span.stop
  stop_le : w.span.stop ≤ text.utf8ByteSize
  boundaries : String.Pos.Raw.IsValid text ⟨w.span.start⟩ ∧ String.Pos.Raw.IsValid text ⟨w.span.stop⟩
  dollar : ∃ before after, text.toList = before ++ '$' :: after ∧
    w ∈ warningsAt (utf8Length before) after ∧ utf8Length before ≤ w.span.start ∧
    w.span.start < utf8Length before + 1 + utf8Length (after.takeWhile (· != '$'))
  word : ∀ s, w.word? = some s → w.span.slice text = s

/-- The warnings of a template are all that is reported for its dollar signs.  They start one behind the
other, and each is placed as it should be. -/
theorem check_placed (text : String) :
    check text = warningsFrom 0 text.toList ∧
      (check text).Pairwise (fun v w => v.span.start < w.span.start) ∧
      ∀ w ∈ check text, Placed text w := by
  refine ⟨check_eq text, check_eq text ▸ warningsFrom_sorted 0 text.toList, fun w hw => ?_⟩
  obtain ⟨part, hmarks, hword⟩ := marks_of_mem_check hw
  rw [check_eq] at hw
  obtain ⟨before, after, htext, hat⟩ := exists_of_mem_behindDollars hw
  rw [Nat.zero_add] at hat
  exact {
    start_le_stop := hmarks.start_le_stop
    stop_le := hmarks.stop_le
    boundaries := hmarks.isValid
    dollar := ⟨before, after, htext, hat, start_of_mem_warningsAt hat⟩
    word := fun s hs => hmarks.slice_eq.trans (hword s hs) }

/-- Places are counted in bytes. -/
example : (check "é$owner:source\x7bcolour\x7d").map Warning.span = [⟨3, 8⟩, ⟨16, 22⟩] := by
  rw [check_eq]
  decide +kernel

end Template

end ModelLabels
