import ModelLabels.Proofs.Template.LetterCase
/-! # Tokens at the head of a text

The search for a token at the head of a text finds the longest one, and it finds one wherever there is
any.

* `Keyword.eq_of_prefix`: no keyword begins another one, so at most one keyword begins a text.
* `Token.Spelling`: the texts of the tokens; `ofLexeme?_eq_some_iff`.
* `Token.Longest`: the longest token at the head of a text; `head?_eq_some_iff`, `head?_eq_none_iff`.
* `Token.head?_keyword`, `head?_ident`, `head?_colon`: tokens with what follows them.
* `Token.Lexes`: the division of a text into tokens, as a relation; `lexFrom_eq_ok_iff`.
-/

namespace ModelLabels
set_option autoImplicit false

/-! ## Spelled keywords and identifiers -/

/-- The characters that delimit the parts of a directive. -/
def delimiters : List Char := [':', '$', '\x7b', '\x7d']

/-- What is checked of each of these characters holds of any of them. -/
theorem of_mem_delimiters (p : Char → Prop) [DecidablePred p] {c : Char} (hc : c ∈ delimiters)
    (h : delimiters.all (fun c => decide (p c)) = true) : p c :=
  of_decide_eq_true (List.all_eq_true.1 h c hc)

namespace Keyword
variable {k l : Keyword} {cs : List Char}

theorem isSpelledBy_iff : k.isSpelledBy cs = true ↔ cs.map foldCase = k.letters := beq_iff_eq

theorem eq_of_isSpelledBy (hk : k.isSpelledBy cs = true) (hl : l.isSpelledBy cs = true) : k = l :=
  letters_injective ((isSpelledBy_iff.1 hk).symm.trans (isSpelledBy_iff.1 hl))

/-- No keyword begins another one. -/
theorem eq_of_prefix (h : k.letters <+: l.letters) : k = l := by
  cases k <;> cases l <;> first | rfl | exact absurd h (by decide)

theorem delimiter_not_mem (h : k.isSpelledBy cs = true) {c : Char} (hc : c ∈ delimiters) :
    c ∉ cs := by
  intro hmem
  obtain ⟨l, hl, hform⟩ := exists_isForm h hmem
  have hmark := of_mem_delimiters
    (fun c => ¬ (c.isAlpha = true ∨ c = 'ſ' ∨ c = '\u212a')) hc (by decide)
  exact hmark (hform.isAlpha hl)

end Keyword

theorem isIdentRest_of_isIdentStart {c : Char} (h : isIdentStart c = true) : isIdentRest c = true := by
  simp only [isIdentStart, isIdentRest, Char.isAlphanum, Bool.or_eq_true] at h ⊢
  rcases h with h | h
  · exact .inl (.inl h)
  · exact .inr h

theorem isIdentRest_of_mem {cs : List Char} (h : isIdent cs = true) {c : Char} (hc : c ∈ cs) :
    isIdentRest c = true := by
  cases cs with
  | nil => cases hc
  | cons d ds =>
    obtain ⟨hd, hds⟩ := Bool.and_eq_true_iff.1 h
    rcases List.mem_cons.1 hc with rfl | hc
    · exact isIdentRest_of_isIdentStart hd
    · exact List.all_eq_true.1 hds c hc

theorem isIdentRest_delimiter {c : Char} (hc : c ∈ delimiters) : isIdentRest c = false :=
  of_mem_delimiters (isIdentRest · = false) hc (by decide)

theorem delimiter_not_mem_of_isIdent {cs : List Char} (h : isIdent cs = true) {c : Char}
    (hc : c ∈ delimiters) : c ∉ cs := by
  intro hmem
  have hrest := isIdentRest_of_mem h hmem
  rw [isIdentRest_delimiter hc] at hrest
  cases hrest

namespace Token

/-! ## The texts of tokens -/

section OfLexeme
variable {cs : List Char}

theorem find?_isSpelledBy_eq_some {k : Keyword} :
    Keyword.all.find? (·.isSpelledBy cs) = some k ↔ k.isSpelledBy cs = true := by
  constructor
  · intro h
    simpa using List.find?_some h
  · intro h
    cases hfind : Keyword.all.find? (·.isSpelledBy cs) with
    | none => exact absurd h (List.find?_eq_none.1 hfind k k.mem_all)
    | some l =>
      have hl : l.isSpelledBy cs = true := by simpa using List.find?_some hfind
      rw [Keyword.eq_of_isSpelledBy hl h]

theorem ofLexeme?_eq_keyword {k : Keyword} :
    ofLexeme? cs = some (keyword k) ↔ k.isSpelledBy cs = true := by
  rw [← find?_isSpelledBy_eq_some]
  unfold ofLexeme?
  cases Keyword.all.find? (·.isSpelledBy cs) with
  | some l => simp
  | none =>
    simp only [reduceCtorEq, iff_false]
    split
    · simp
    · split <;> simp

theorem find?_isSpelledBy_eq_none :
    Keyword.all.find? (·.isSpelledBy cs) = none ↔ ∀ k : Keyword, k.isSpelledBy cs = false := by
  simp [List.find?_eq_none, Keyword.mem_all]

theorem ofLexeme?_eq_colon : ofLexeme? cs = some colon ↔ cs = [':'] := by
  unfold ofLexeme?
  constructor
  · intro h
    split at h
    · cases h
    · split at h
      · assumption
      · split at h <;> cases h
  · rintro rfl
    rfl

theorem ofLexeme?_eq_ident {name : String} : ofLexeme? cs = some (ident name) ↔
    (∀ k : Keyword, k.isSpelledBy cs = false) ∧ isIdent cs = true ∧ name = String.ofList cs := by
  unfold ofLexeme?
  constructor
  · intro h
    split at h
    · cases h
    · rename_i hnone
      split at h
      · cases h
      · split at h
        · rename_i hident
          cases h
          exact ⟨find?_isSpelledBy_eq_none.1 hnone, hident, rfl⟩
        · cases h
  · rintro ⟨hnone, hident, rfl⟩
    have hcolon : cs ≠ [':'] := by
      rintro rfl
      exact absurd hident (by decide)
    rw [find?_isSpelledBy_eq_none.2 hnone]
    simp only [if_neg hcolon, if_pos hident]

end OfLexeme

/-- The texts of a token.  A text that is a keyword up to case folding is no identifier. -/
inductive Spelling : List Char → Token → Prop where
  | keyword {cs : List Char} {k : Keyword} (h : cs.map foldCase = k.letters) : Spelling cs (keyword k)
  | colon : Spelling [':'] colon
  | ident {cs : List Char} (hkeyword : ∀ k : Keyword, cs.map foldCase ≠ k.letters)
      (hident : isIdent cs = true) : Spelling cs (ident (String.ofList cs))

theorem ofLexeme?_eq_some_iff {cs : List Char} {token : Token} :
    ofLexeme? cs = some token ↔ Spelling cs token := by
  have hnot (k : Keyword) : k.isSpelledBy cs = false ↔ cs.map foldCase ≠ k.letters := by
    rw [← Bool.not_eq_true, Keyword.isSpelledBy_iff]
  constructor
  · intro h
    cases token with
    | keyword k => exact .keyword (Keyword.isSpelledBy_iff.1 (ofLexeme?_eq_keyword.1 h))
    | colon =>
      rw [ofLexeme?_eq_colon.1 h]
      exact .colon
    | ident name =>
      obtain ⟨hkeyword, hident, rfl⟩ := ofLexeme?_eq_ident.1 h
      exact .ident (fun k => (hnot k).1 (hkeyword k)) hident
  · intro h
    cases h with
    | keyword hk => exact ofLexeme?_eq_keyword.2 (Keyword.isSpelledBy_iff.2 hk)
    | colon => rfl
    | ident hkeyword hident =>
      exact ofLexeme?_eq_ident.2 ⟨fun k => (hnot k).2 (hkeyword k), hident, rfl⟩

theorem Spelling.ne_nil {cs : List Char} {token : Token} (h : Spelling cs token) : cs ≠ [] := by
  rintro rfl
  cases ofLexeme?_eq_some_iff.2 h

theorem exists_spelling_of_isIdent {cs : List Char} (h : isIdent cs = true) :
    ∃ token, Spelling cs token := by
  by_cases hkeyword : ∃ k : Keyword, cs.map foldCase = k.letters
  · obtain ⟨k, hk⟩ := hkeyword
    exact ⟨_, .keyword hk⟩
  · exact ⟨_, .ident (not_exists.1 hkeyword) h⟩

/-- No token but the colon has a colon in it. -/
theorem Spelling.eq_colon {cs : List Char} {token : Token} (h : Spelling cs token) (hc : ':' ∈ cs) :
    cs = [':'] := by
  have hcolon : ':' ∈ delimiters := by decide
  cases h with
  | keyword hk => exact absurd hc (Keyword.delimiter_not_mem (Keyword.isSpelledBy_iff.2 hk) hcolon)
  | colon => rfl
  | ident _ hident => exact absurd hc (delimiter_not_mem_of_isIdent hident hcolon)

/-! ## The longest token -/

section Search
variable {cs lexeme rest : List Char}

theorem keywordLength_append {k : Keyword} (h : k.isSpelledBy lexeme = true) :
    keywordLength (lexeme ++ rest) = lexeme.length := by
  have hlength := Keyword.length_of_isSpelledBy h
  have hself : k.isSpelledBy ((lexeme ++ rest).take k.letters.length) = true := by
    rwa [← hlength, List.take_left]
  unfold keywordLength
  cases hfind : Keyword.all.find? fun j => j.isSpelledBy ((lexeme ++ rest).take j.letters.length) with
  | none => exact absurd hself (List.find?_eq_none.1 hfind k k.mem_all)
  | some j =>
    have hj : j.isSpelledBy ((lexeme ++ rest).take j.letters.length) = true := by
      simpa using List.find?_some hfind
    -- Both keywords begin the folded text, so one of them begins the other.
    have hhead {l : Keyword} (hl : l.isSpelledBy ((lexeme ++ rest).take l.letters.length) = true) :
        l.letters <+: (lexeme ++ rest).map foldCase := by
      have hprefix := (List.take_prefix l.letters.length (lexeme ++ rest)).map foldCase
      rwa [Keyword.isSpelledBy_iff.1 hl] at hprefix
    have hsame : j = k := by
      rcases List.prefix_or_prefix_of_prefix (hhead hj) (hhead hself) with hjk | hkj
      · exact Keyword.eq_of_prefix hjk
      · exact (Keyword.eq_of_prefix hkj).symm
    rw [hsame, hlength]

theorem exists_isSpelledBy_take (h : 0 < keywordLength cs) :
    ∃ k : Keyword, k.isSpelledBy (cs.take (keywordLength cs)) = true := by
  unfold keywordLength at h ⊢
  cases hfind : Keyword.all.find? fun k => k.isSpelledBy (cs.take k.letters.length) with
  | none =>
    rw [hfind] at h
    cases h
  | some k => exact ⟨k, by simpa using List.find?_some hfind⟩

theorem le_identLength_append (h : isIdent lexeme = true) :
    lexeme.length ≤ identLength (lexeme ++ rest) := by
  cases lexeme with
  | nil => cases h
  | cons c cs =>
    obtain ⟨hc, hcs⟩ := Bool.and_eq_true_iff.1 h
    rw [List.cons_append, identLength, if_pos hc,
      List.takeWhile_append_of_pos (List.all_eq_true.1 hcs), List.length_append, List.length_cons]
    omega

theorem isIdent_take (h : 0 < identLength cs) : isIdent (cs.take (identLength cs)) = true := by
  cases cs with
  | nil => cases h
  | cons c cs =>
    by_cases hc : isIdentStart c = true
    · have htake : cs.take (cs.takeWhile isIdentRest).length = cs.takeWhile isIdentRest :=
        (List.prefix_iff_eq_take.1 (List.takeWhile_prefix _)).symm
      rw [identLength, if_pos hc, List.take_succ_cons, htake]
      exact Bool.and_eq_true_iff.2 ⟨hc, List.all_takeWhile⟩
    · rw [identLength, if_neg hc] at h
      cases h

end Search

/-- A text at the head of another one is a token, and no longer one at its head is any token. -/
structure Longest (cs lexeme : List Char) (token : Token) : Prop where
  head : lexeme <+: cs
  spelling : Spelling lexeme token
  length_le : ∀ {longer t}, longer <+: cs → Spelling longer t → longer.length ≤ lexeme.length

section Longest
variable {cs lexeme part rest : List Char} {token : Token}

/-- The longest token of a text is that of each part of the text that it begins. -/
theorem Longest.of_prefix (h : Longest cs lexeme token) (hpart : part <+: cs)
    (hhead : lexeme <+: part) : Longest part lexeme token :=
  ⟨hhead, h.spelling, fun hlonger => h.length_le (hlonger.trans hpart)⟩

/-- No token at the head of a text is longer than the search says. -/
theorem Spelling.length_le_longest (h : Spelling lexeme token) (hhead : lexeme <+: cs) :
    lexeme.length ≤ longest cs := by
  obtain ⟨rest, rfl⟩ := hhead
  unfold longest
  cases h with
  | keyword hk =>
    rw [keywordLength_append (Keyword.isSpelledBy_iff.2 hk)]
    omega
  | colon =>
    rw [List.length_singleton]
    omega
  | ident _ hident =>
    have hle : lexeme.length ≤ identLength (lexeme ++ rest) := le_identLength_append hident
    omega

/-- Where a text begins with a token, one has the length that the search says. -/
theorem Spelling.exists_longest (h : Spelling lexeme token) (hhead : lexeme <+: cs) :
    ∃ t, Spelling (cs.take (longest cs)) t := by
  by_cases hkeyword : 0 < keywordLength cs ∧ identLength cs ≤ keywordLength cs
  · have hlongest : longest cs = keywordLength cs := by unfold longest; omega
    obtain ⟨k, hk⟩ := exists_isSpelledBy_take hkeyword.1
    rw [hlongest]
    exact ⟨_, .keyword (Keyword.isSpelledBy_iff.1 hk)⟩
  by_cases hident : 0 < identLength cs
  · have hlongest : longest cs = identLength cs := by unfold longest; omega
    rw [hlongest]
    exact exists_spelling_of_isIdent (isIdent_take hident)
  · -- There is neither a keyword nor an identifier, so the token is a colon.
    obtain ⟨rest, rfl⟩ := hhead
    have hlongest : longest (lexeme ++ rest) = 1 := by unfold longest; omega
    have hpos := List.length_pos_iff.2 h.ne_nil
    cases h with
    | keyword hk =>
      have hlength : keywordLength (lexeme ++ rest) = lexeme.length :=
        keywordLength_append (Keyword.isSpelledBy_iff.2 hk)
      omega
    | colon =>
      rw [hlongest]
      exact ⟨_, .colon⟩
    | ident _ hident' =>
      have hle : lexeme.length ≤ identLength (lexeme ++ rest) := le_identLength_append hident'
      omega

/-- The token at the head of a text is the longest one. -/
theorem head?_eq_some_iff : head? cs = some (token, lexeme) ↔ Longest cs lexeme token := by
  constructor
  · intro h
    obtain ⟨htake, htoken⟩ := head?_eq_some h
    refine ⟨htake ▸ List.take_prefix _ cs, ofLexeme?_eq_some_iff.1 htoken, fun hhead hlonger => ?_⟩
    rw [htake, List.length_take]
    exact Nat.le_min.2 ⟨hlonger.length_le_longest hhead, hhead.length_le⟩
  · intro h
    obtain ⟨t, ht⟩ := h.spelling.exists_longest h.head
    -- What the search finds is no longer than the longest token, and no shorter either.
    have hle := h.length_le (List.take_prefix _ cs) ht
    have hge := h.spelling.length_le_longest h.head
    have hlength : (cs.take (longest cs)).length = lexeme.length := by
      rw [List.length_take] at hle ⊢
      have hlexeme := h.head.length_le
      omega
    have hlexeme : cs.take (longest cs) = lexeme := by
      rw [List.prefix_iff_eq_take.1 h.head, ← hlength]
      exact List.prefix_iff_eq_take.1 (List.take_prefix _ cs)
    unfold head?
    rw [hlexeme, ofLexeme?_eq_some_iff.2 h.spelling]
    rfl

/-- A text has no token at its head exactly if it begins with none. -/
theorem head?_eq_none_iff :
    head? cs = none ↔ ∀ lexeme token, lexeme <+: cs → ¬ Spelling lexeme token := by
  constructor
  · intro h lexeme token hhead hspelling
    obtain ⟨t, ht⟩ := hspelling.exists_longest hhead
    unfold head? at h
    rw [ofLexeme?_eq_some_iff.2 ht] at h
    cases h
  · intro h
    cases hfound : head? cs with
    | none => rfl
    | some found =>
      have hlongest := head?_eq_some_iff.1 hfound
      exact absurd hlongest.spelling (h _ _ hlongest.head)

/-- A keyword before the end of a text. -/
theorem head?_keyword {k : Keyword} (h : k.isSpelledBy cs = true) :
    head? cs = some (keyword k, cs) :=
  head?_eq_some_iff.2 ⟨List.prefix_rfl, .keyword (Keyword.isSpelledBy_iff.1 h),
    fun hlonger _ => hlonger.length_le⟩

/-- No token reaches over a colon. -/
theorem Longest.of_colon (h : Spelling lexeme token) :
    Longest (lexeme ++ ':' :: rest) lexeme token := by
  refine ⟨List.prefix_append _ _, h, fun {longer t} hhead hlonger => Nat.le_of_not_lt fun hlt => ?_⟩
  have hmore : lexeme ++ [':'] <+: longer := by
    refine List.prefix_of_prefix_length_le ⟨rest, by simp⟩ hhead ?_
    rw [List.length_append]
    exact hlt
  have hsingle := hlonger.eq_colon (hmore.subset (List.mem_append_right _ List.mem_cons_self))
  have hpos := List.length_pos_iff.2 h.ne_nil
  rw [hsingle, List.length_singleton] at hlt
  omega

/-- An identifier before a colon. -/
theorem head?_ident (hk : ∀ k : Keyword, k.isSpelledBy cs = false) (h : isIdent cs = true) :
    head? (cs ++ ':' :: rest) = some (ident (String.ofList cs), cs) :=
  head?_eq_some_iff.2 (.of_colon (ofLexeme?_eq_some_iff.1 (ofLexeme?_eq_ident.2 ⟨hk, h, rfl⟩)))

theorem head?_colon : head? (':' :: rest) = some (colon, [':']) := by
  refine head?_eq_some_iff.2 ⟨⟨rest, rfl⟩, .colon, fun {longer t} hhead hlonger => ?_⟩
  obtain ⟨c, more, rfl⟩ := List.exists_cons_of_ne_nil hlonger.ne_nil
  obtain ⟨rfl, -⟩ := List.cons_prefix_cons.1 hhead
  exact Nat.le_of_eq (congrArg List.length (hlonger.eq_colon List.mem_cons_self))

end Longest

/-! ## Division into tokens -/

/-- A text whose first byte is at a position is divided into tokens, each time the longest one. -/
inductive Lexes : Nat → List Char → List (Spanned Token) → Prop where
  | nil {pos : Nat} : Lexes pos [] []
  | cons {pos : Nat} {token : Token} {lexeme rest : List Char} {tokens : List (Spanned Token)}
      (hhead : head? (lexeme ++ rest) = some (token, lexeme))
      (hrest : Lexes (pos + utf8Length lexeme) rest tokens) :
      Lexes pos (lexeme ++ rest) (⟨token, ⟨pos, pos + utf8Length lexeme⟩⟩ :: tokens)

theorem Lexes.eq_nil {pos : Nat} {cs : List Char} {tokens : List (Spanned Token)}
    (h : Lexes pos cs tokens) (hnodes : tokens.map (·.node) = []) : cs = [] := by
  cases h with
  | nil => rfl
  | cons => cases hnodes

/-- The first token of a text is one of its beginnings, and the others are the tokens of the rest. -/
theorem Lexes.exists_head {pos : Nat} {cs : List Char} {tokens : List (Spanned Token)}
    {token : Token} {nodes : List Token} (h : Lexes pos cs tokens)
    (hnodes : tokens.map (·.node) = token :: nodes) :
    ∃ lexeme rest next more, cs = lexeme ++ rest ∧ ofLexeme? lexeme = some token ∧
      Lexes next rest more ∧ more.map (·.node) = nodes := by
  cases h with
  | nil => cases hnodes
  | @cons _ _ lexeme rest more hhead hrest =>
    obtain ⟨htoken, hmore⟩ := List.cons.inj hnodes
    cases htoken
    exact ⟨lexeme, rest, _, more, rfl, (head?_eq_some hhead).2, hrest, hmore⟩

theorem lexes_keyword {pos : Nat} {cs : List Char} {k : Keyword} (h : k.isSpelledBy cs = true) :
    Lexes pos cs [⟨keyword k, ⟨pos, pos + utf8Length cs⟩⟩] := by
  have hhead : head? (cs ++ []) = some (keyword k, cs) := by
    rw [List.append_nil]
    exact head?_keyword h
  have hlex : Lexes pos (cs ++ []) [⟨keyword k, ⟨pos, pos + utf8Length cs⟩⟩] := .cons hhead .nil
  rwa [List.append_nil] at hlex

theorem append_drop_of_head? {cs lexeme : List Char} {token : Token}
    (h : head? cs = some (token, lexeme)) : lexeme ++ cs.drop lexeme.length = cs := by
  obtain ⟨hlexeme, -⟩ := head?_eq_some h
  have hprefix : lexeme <+: cs := hlexeme ▸ List.take_prefix _ cs
  exact List.prefix_iff_eq_append.1 hprefix

theorem lexeme_ne_nil_of_head? {cs lexeme : List Char} {token : Token}
    (h : head? cs = some (token, lexeme)) : lexeme ≠ [] := by
  rintro rfl
  have hnone : ofLexeme? [] = none := rfl
  rw [(head?_eq_some h).2] at hnone
  cases hnone

theorem lexFrom_eq_ok_iff {pos : Nat} {cs : List Char} {tokens : List (Spanned Token)} :
    lexFrom pos cs = .ok tokens ↔ Lexes pos cs tokens := by
  constructor
  · intro h
    fun_induction lexFrom pos cs generalizing tokens with
    | case1 pos =>
      cases h
      exact .nil
    | case2 pos c rest hnone => cases h
    | case3 pos c rest token lexeme hhead more hmore ih =>
      cases h
      have happend := append_drop_of_head? hhead
      have hcons : Lexes pos (lexeme ++ _) _ := .cons (happend.symm ▸ hhead) (ih hmore)
      rwa [happend] at hcons
    | case4 pos c rest token lexeme hhead span hspan ih => cases h
  · intro h
    induction h with
    | nil => rw [lexFrom]
    | @cons pos token lexeme rest tokens hhead _ ih =>
      have hne := lexeme_ne_nil_of_head? hhead
      obtain ⟨c, more, hcons⟩ : ∃ c more, lexeme ++ rest = c :: more := by
        cases lexeme with
        | nil => exact absurd rfl hne
        | cons c more => exact ⟨c, more ++ rest, rfl⟩
      have hdrop : (c :: more).drop lexeme.length = rest := by
        rw [← hcons, List.drop_left]
      rw [hcons] at hhead ⊢
      rw [lexFrom]
      split
      · rename_i hnone
        rw [hhead] at hnone
        cases hnone
      · rename_i token' lexeme' hsome
        rw [hhead] at hsome
        cases hsome
        rw [hdrop, ih]

end Token

end ModelLabels
