import Mathlib.Data.List.Forall2
import ModelLabels.Template.Token
/-! # Letter case

The letters of the keywords are small letters of ASCII.  A route keyword is found in a text of forms of
its letters: a small letter, its capital, and for `s` and `k` one more character each that case folding
takes for the letter.  The keyword of a relationship type is found in a text of small letters and capitals
alone.

* `Letter.toLower_eq_iff`: the characters that are lowered to a small letter.
* `Letter.IsForm`: the forms of a letter; `foldCase_eq_iff`, `foldCase_eq_foldCase_iff`.
* `Keyword.isSpelledBy_iff_forms`, `RelationshipType.ofKeyword?_eq_some_iff`: when a keyword is found.
-/

namespace ModelLabels
set_option autoImplicit false

/-! ## Code points -/

namespace Letter
variable {c d l : Char}

theorem isUpper_val_iff :
    ('A'.val ≤ c.val ∧ c.val ≤ 'Z'.val) ↔ 65 ≤ c.toNat ∧ c.toNat ≤ 90 := by
  rw [UInt32.le_iff_toNat_le, UInt32.le_iff_toNat_le]
  rfl

theorem isLower_val_iff :
    ('a'.val ≤ c.val ∧ c.val ≤ 'z'.val) ↔ 97 ≤ c.toNat ∧ c.toNat ≤ 122 := by
  rw [UInt32.le_iff_toNat_le, UInt32.le_iff_toNat_le]
  rfl

theorem isLower_iff : c.isLower = true ↔ 97 ≤ c.toNat ∧ c.toNat ≤ 122 := by
  rw [← isLower_val_iff, ← decide_eq_true_iff (p := _ ∧ _), Bool.decide_and]
  rfl

theorem isAlpha_iff : c.isAlpha = true ↔
    (65 ≤ c.toNat ∧ c.toNat ≤ 90) ∨ (97 ≤ c.toNat ∧ c.toNat ≤ 122) := by
  rw [← isUpper_val_iff, ← isLower_iff, ← decide_eq_true_iff (p := 'A'.val ≤ c.val ∧ _),
    ← Bool.or_eq_true_iff]
  rfl

theorem toNat_toLower (c : Char) :
    c.toLower.toNat = if 65 ≤ c.toNat ∧ c.toNat ≤ 90 then c.toNat + 32 else c.toNat := by
  have hshift : ('a'.val - 'A'.val).toNat = 32 := by decide
  split
  · rename_i h
    have hval : c.toLower.val = c.val + ('a'.val - 'A'.val) := by
      delta Char.toLower
      rw [dif_pos (isUpper_val_iff.2 h)]
    rw [← Char.toNat_val, hval, UInt32.toNat_add, hshift, Char.toNat_val]
    omega
  · rename_i h
    have hself : c.toLower = c := dif_neg (mt isUpper_val_iff.1 h)
    rw [hself]

theorem toNat_toUpper (c : Char) :
    c.toUpper.toNat = if 97 ≤ c.toNat ∧ c.toNat ≤ 122 then c.toNat - 32 else c.toNat := by
  -- The difference is counted modulo the size of a word.
  have hshift : ('A'.val - 'a'.val).toNat = 4294967264 := by decide
  split
  · rename_i h
    have hval : c.toUpper.val = c.val + ('A'.val - 'a'.val) := by
      delta Char.toUpper
      rw [dif_pos (isLower_val_iff.2 h)]
    rw [← Char.toNat_val, hval, UInt32.toNat_add, hshift, Char.toNat_val]
    omega
  · rename_i h
    have hself : c.toUpper = c := dif_neg (mt isLower_val_iff.1 h)
    rw [hself]

/-- A small letter is what it and its capital are lowered to. -/
theorem toLower_eq_iff (hl : l.isLower = true) : c.toLower = l ↔ c = l ∨ c = l.toUpper := by
  rw [isLower_iff] at hl
  simp only [← Char.toNat_inj, toNat_toLower, toNat_toUpper, if_pos hl]
  split <;> omega

/-! ## Case folding -/

/-- The forms of a small letter: the letter, its capital, the long s for the s, and the sign for kelvin
for the k. -/
def IsForm (l c : Char) : Prop :=
  c = l ∨ c = l.toUpper ∨ (l = 's' ∧ c = 'ſ') ∨ (l = 'k' ∧ c = '\u212a')

theorem toNat_foldCase (c : Char) : (foldCase c).toNat =
    if c.toNat = 383 then 115 else if c.toNat = 8490 then 107 else c.toLower.toNat := by
  have hlong : c = 'ſ' ↔ c.toNat = 383 := Char.toNat_inj.symm
  have hkelvin : c = '\u212a' ↔ c.toNat = 8490 := Char.toNat_inj.symm
  simp only [foldCase, hlong, hkelvin]
  split
  · rfl
  · split <;> rfl

theorem isForm_iff : IsForm l c ↔ c.toNat = l.toNat ∨ c.toNat = l.toUpper.toNat ∨
    (l.toNat = 115 ∧ c.toNat = 383) ∨ (l.toNat = 107 ∧ c.toNat = 8490) := by
  simp only [IsForm, ← Char.toNat_inj]
  rfl

/-- A small letter is what its forms are folded to. -/
theorem foldCase_eq_iff (hl : l.isLower = true) : foldCase c = l ↔ IsForm l c := by
  rw [isLower_iff] at hl
  rw [← Char.toNat_inj, isForm_iff, toNat_foldCase, toNat_toLower, toNat_toUpper, if_pos hl]
  repeat' split
  all_goals omega

/-- A form of a letter is a letter of ASCII or one of the two others. -/
theorem IsForm.isAlpha (hl : l.isLower = true) (h : IsForm l c) :
    c.isAlpha = true ∨ c = 'ſ' ∨ c = '\u212a' := by
  rw [isLower_iff] at hl
  rcases h with rfl | rfl | ⟨-, hlong⟩ | ⟨-, hkelvin⟩
  · exact .inl (isAlpha_iff.2 (.inr hl))
  · refine .inl (isAlpha_iff.2 (.inl ?_))
    rw [toNat_toUpper, if_pos hl]
    omega
  · exact .inr (.inl hlong)
  · exact .inr (.inr hkelvin)

/-- What is not folded to a small letter is left as it is. -/
theorem foldCase_eq_self (h : ¬ (foldCase c).isLower = true) : foldCase c = c := by
  rw [isLower_iff, toNat_foldCase, toNat_toLower] at h
  rw [← Char.toNat_inj, toNat_foldCase, toNat_toLower]
  repeat' split
  all_goals grind

/-- Two characters fold alike if they are one, or forms of the same letter. -/
theorem foldCase_eq_foldCase_iff :
    foldCase c = foldCase d ↔ c = d ∨ ∃ l, l.isLower = true ∧ IsForm l c ∧ IsForm l d := by
  constructor
  · intro h
    by_cases hlower : (foldCase d).isLower = true
    · exact .inr ⟨foldCase d, hlower, (foldCase_eq_iff hlower).1 h, (foldCase_eq_iff hlower).1 rfl⟩
    · have hc : foldCase c = c := foldCase_eq_self fun hc => hlower (h ▸ hc)
      exact .inl (hc.symm.trans (h.trans (foldCase_eq_self hlower)))
  · rintro (rfl | ⟨l, hl, hc, hd⟩)
    · rfl
    · rw [(foldCase_eq_iff hl).2 hc, (foldCase_eq_iff hl).2 hd]

end Letter

/-! ## Keywords -/

section Forms
variable {f : Char → Char} {letters cs : List Char}

theorem map_eq_iff_forall₂ {R : Char → Char → Prop} (h : ∀ l ∈ letters, ∀ c, f c = l ↔ R c l) :
    cs.map f = letters ↔ List.Forall₂ R cs letters := by
  induction letters generalizing cs with
  | nil => rw [List.map_eq_nil_iff, List.forall₂_nil_right_iff]
  | cons l letters ih =>
    obtain ⟨hl, hletters⟩ := List.forall_mem_cons.1 h
    cases cs with
    | nil => simp
    | cons c cs => rw [List.map_cons, List.cons_eq_cons, List.forall₂_cons, hl, ih hletters]

end Forms

namespace Keyword
variable {k : Keyword} {cs : List Char}

theorem isLower_of_mem_letters (k : Keyword) : ∀ l ∈ k.letters, l.isLower = true :=
  List.all_eq_true.1 (by cases k <;> decide)

/-- A keyword is found in the forms of its letters. -/
theorem isSpelledBy_iff_forms :
    k.isSpelledBy cs = true ↔ List.Forall₂ (fun c l => Letter.IsForm l c) cs k.letters :=
  beq_iff_eq.trans
    (map_eq_iff_forall₂ fun l hl _ => Letter.foldCase_eq_iff (k.isLower_of_mem_letters l hl))

theorem isSpelledBy_letters (k : Keyword) : k.isSpelledBy k.letters = true :=
  isSpelledBy_iff_forms.2 (List.forall₂_same.2 fun _ _ => .inl rfl)

theorem length_of_isSpelledBy (h : k.isSpelledBy cs = true) : cs.length = k.letters.length :=
  (isSpelledBy_iff_forms.1 h).length_eq

/-- A keyword is written in forms of letters. -/
theorem exists_isForm (h : k.isSpelledBy cs = true) {c : Char} (hc : c ∈ cs) :
    ∃ l, l.isLower = true ∧ Letter.IsForm l c := by
  have hmem : foldCase c ∈ k.letters := by
    rw [← beq_iff_eq.1 h]
    exact List.mem_map_of_mem hc
  have hl := k.isLower_of_mem_letters _ hmem
  exact ⟨_, hl, (Letter.foldCase_eq_iff hl).1 rfl⟩

end Keyword

namespace RelationshipType
variable {s : String} {t u : RelationshipType}

theorem isLower_of_mem_keyword (t : RelationshipType) : ∀ l ∈ t.keyword.toList, l.isLower = true :=
  List.all_eq_true.1 (by cases t <;> decide)

theorem keyword_injective (h : t.keyword.toList = u.keyword.toList) : t = u := by
  cases t <;> cases u <;> first | rfl | exact absurd h (by decide)

theorem sameIgnoringCase_keyword_iff :
    sameIgnoringCase t.keyword s = true ↔ s.toList.map Char.toLower = t.keyword.toList := by
  have hself : t.keyword.toList.map Char.toLower = t.keyword.toList := by cases t <;> decide
  rw [sameIgnoringCase, hself, beq_iff_eq, eq_comm]

theorem sameIgnoringCase_of_ofKeyword? (h : ofKeyword? s = some t) :
    sameIgnoringCase t.keyword s = true := by
  unfold ofKeyword? at h
  simpa using List.find?_some h

/-- A relationship type is found by its keyword, each letter of it small or a capital. -/
theorem ofKeyword?_eq_some_iff : ofKeyword? s = some t ↔
    List.Forall₂ (fun c l => c = l ∨ c = l.toUpper) s.toList t.keyword.toList := by
  rw [← map_eq_iff_forall₂ fun l hl _ => Letter.toLower_eq_iff (t.isLower_of_mem_keyword l hl),
    ← sameIgnoringCase_keyword_iff]
  refine ⟨sameIgnoringCase_of_ofKeyword?, fun h => ?_⟩
  cases hfind : ofKeyword? s with
  | none => exact absurd h (List.find?_eq_none.1 hfind t t.mem_all)
  | some u =>
    have hu := sameIgnoringCase_of_ofKeyword? hfind
    rw [sameIgnoringCase_keyword_iff] at h hu
    rw [keyword_injective (hu.symm.trans h)]

/-- A relationship type is found by its keyword as it is written. -/
theorem ofKeyword?_keyword (t : RelationshipType) : ofKeyword? t.keyword = some t :=
  ofKeyword?_eq_some_iff.2 (List.forall₂_same.2 fun _ _ => .inl rfl)

end RelationshipType

end ModelLabels
