import ModelLabels.Template.Directive
import ModelLabels.Proofs.Template.Lexing
/-! # The grammar of directives

Readers beside the grammar that they accept.  A route is empty, a keyword, or an identifier that is no
keyword, a colon and an end; an attribute is `property:` and a key, or a word; a directive is a route
and an attribute with their marks.

* `Route.Parses`, `Route.Spelling`: the tokens and the texts of a route; `Route.read_eq_ok_iff`.
* `Attribute.Spelling`: the texts of an attribute; `Attribute.ofChars?_eq_some_iff`.
* `Directive.Written`: the text of a directive at a byte; `Directive.read_eq_ok_iff`.
-/

namespace ModelLabels
set_option autoImplicit false

/-! ## Routes -/

theorem Token.endpoint?_eq_some {t : Token} {e : Endpoint} :
    t.endpoint? = some e ↔ t = .keyword e.keyword := by
  cases t with
  | keyword k => cases k <;> cases e <;> simp [endpoint?, Keyword.endpoint?, Endpoint.keyword]
  | colon => simp [endpoint?]
  | ident name => simp [endpoint?]

theorem Token.lexes_related {pos : Nat} {word ending : List Char} {k : Keyword}
    (hword : isIdent word = true) (hkeyword : ∀ l : Keyword, l.isSpelledBy word = false)
    (hend : k.isSpelledBy ending = true) :
    ∃ tokens, Lexes pos (word ++ ':' :: ending) tokens ∧
      tokens.map (·.node) = [.ident (String.ofList word), .colon, .keyword k] := by
  have hcolon : Lexes (pos + utf8Length word) ([':'] ++ ending) _ :=
    .cons head?_colon (lexes_keyword hend)
  exact ⟨_, .cons (head?_ident hkeyword hword) hcolon, rfl⟩

namespace Route

/-- The tokens of a route. -/
inductive Parses : List Token → Route → Prop where
  | current : Parses [] current
  | along (k : Keyword) : Parses [.keyword k] (along k)
  | related (name : String) (e : Endpoint) :
      Parses [.ident name, .colon, .keyword e.keyword] (related (Relation.ofKeyword name) e)

theorem complete_eq_ok {stop : Nat} {r route : Route} {rest : List (Spanned Token)} :
    complete stop r rest = .ok route ↔ rest = [] ∧ route = r := by
  cases rest <;> simp [complete, eq_comm]

theorem ofEnd_eq_ok {stop : Nat} {name : String} {tokens : List (Spanned Token)} {route : Route} :
    ofEnd stop name tokens = .ok route ↔ ∃ e : Endpoint,
      tokens.map (·.node) = [.keyword e.keyword] ∧ route = related (Relation.ofKeyword name) e := by
  cases tokens with
  | nil => simp [ofEnd]
  | cons t rest =>
    unfold ofEnd
    cases he : t.node.endpoint? with
    | none =>
      have hnot : ∀ e : Endpoint, t.node ≠ .keyword e.keyword := fun e ht => by
        rw [Token.endpoint?_eq_some.2 ht] at he
        cases he
      simp [he, hnot]
    | some e =>
      have ht := Token.endpoint?_eq_some.1 he
      simp only [he, complete_eq_ok]
      constructor
      · rintro ⟨rfl, rfl⟩
        exact ⟨e, by simp [ht], rfl⟩
      · rintro ⟨e', he', rfl⟩
        obtain ⟨ht', hrest⟩ := List.cons.inj he'
        rw [Token.endpoint?_eq_some.2 ht'] at he
        cases he
        exact ⟨List.map_eq_nil_iff.1 hrest, rfl⟩

theorem ofColon_eq_ok {stop : Nat} {name : String} {tokens : List (Spanned Token)}
    {route : Route} : ofColon stop name tokens = .ok route ↔ ∃ e : Endpoint,
      tokens.map (·.node) = [.colon, .keyword e.keyword] ∧
        route = related (Relation.ofKeyword name) e := by
  unfold ofColon
  split
  · simp [ofEnd_eq_ok]
  · rename_i hnot
    simp only [reduceCtorEq, false_iff, not_exists, not_and]
    intro e htokens
    obtain ⟨⟨node, span⟩, rest, rfl, rfl, -⟩ := List.map_eq_cons_iff.1 htokens
    exact absurd rfl (hnot span rest)

/-- Tokens are read as a route exactly if they are the tokens of one. -/
theorem ofTokens_eq_ok_iff {stop : Nat} {tokens : List (Spanned Token)} {route : Route} :
    ofTokens stop tokens = .ok route ↔ Parses (tokens.map (·.node)) route := by
  unfold ofTokens
  split
  · constructor
    · rintro ⟨⟩
      exact .current
    · rintro ⟨⟩
      rfl
  · rename_i k span rest
    rw [complete_eq_ok]
    constructor
    · rintro ⟨rfl, rfl⟩
      exact .along k
    · intro h
      generalize hnodes : (⟨.keyword k, span⟩ :: rest : List (Spanned Token)).map (·.node) = nodes at h
      cases h with
      | current => cases hnodes
      | along k' =>
        obtain ⟨hk, hrest⟩ := List.cons.inj hnodes
        cases hk
        exact ⟨List.map_eq_nil_iff.1 hrest, rfl⟩
      | related name e => cases (List.cons.inj hnodes).1
  · rename_i name span rest
    rw [ofColon_eq_ok]
    constructor
    · rintro ⟨e, hrest, rfl⟩
      rw [List.map_cons, hrest]
      exact .related name e
    · intro h
      generalize hnodes : (⟨.ident name, span⟩ :: rest : List (Spanned Token)).map (·.node) = nodes at h
      cases h with
      | current => cases hnodes
      | along k => cases (List.cons.inj hnodes).1
      | related name' e =>
        obtain ⟨hname, hrest⟩ := List.cons.inj hnodes
        cases hname
        exact ⟨e, hrest, rfl⟩
  · simp only [reduceCtorEq, false_iff]
    intro h
    cases h

/-- The texts of a route. -/
inductive Spelling : List Char → Route → Prop where
  | current : Spelling [] current
  | along {cs : List Char} {k : Keyword} (h : k.isSpelledBy cs = true) : Spelling cs (along k)
  | related {word ending : List Char} {e : Endpoint} (hword : isIdent word = true)
      (hkeyword : ∀ k : Keyword, k.isSpelledBy word = false)
      (hend : e.keyword.isSpelledBy ending = true) :
      Spelling (word ++ ':' :: ending) (related (Relation.ofKeyword (String.ofList word)) e)

theorem read_eq_ok {start : Nat} {cs : List Char} {route : Route} :
    read start cs = .ok route ↔
      ∃ tokens, Token.Lexes start cs tokens ∧ Parses (tokens.map (·.node)) route := by
  unfold read
  cases hlex : Token.lexFrom start cs with
  | error span =>
    simp only [reduceCtorEq, false_iff, not_exists, not_and]
    intro tokens htokens
    rw [Token.lexFrom_eq_ok_iff.2 htokens] at hlex
    cases hlex
  | ok tokens =>
    simp only [ofTokens_eq_ok_iff]
    constructor
    · exact fun h => ⟨tokens, Token.lexFrom_eq_ok_iff.1 hlex, h⟩
    · rintro ⟨tokens', htokens, h⟩
      rw [Token.lexFrom_eq_ok_iff.2 htokens] at hlex
      cases hlex
      exact h

/-- A text is read as a route exactly if it is spelled as one. -/
theorem read_eq_ok_iff {start : Nat} {cs : List Char} {route : Route} :
    read start cs = .ok route ↔ Spelling cs route := by
  rw [read_eq_ok]
  constructor
  · rintro ⟨tokens, hlex, hparse⟩
    generalize hnodes : tokens.map (·.node) = nodes at hparse
    cases hparse with
    | current =>
      rw [hlex.eq_nil hnodes]
      exact .current
    | along k =>
      obtain ⟨lexeme, rest, _, _, rfl, hk, hlex, hnil⟩ := hlex.exists_head hnodes
      rw [hlex.eq_nil hnil, List.append_nil]
      exact .along (Token.ofLexeme?_eq_keyword.1 hk)
    | related name e =>
      obtain ⟨word, _, _, _, rfl, hword, hlex, hnodes⟩ := hlex.exists_head hnodes
      obtain ⟨mark, _, _, _, rfl, hmark, hlex, hnodes⟩ := hlex.exists_head hnodes
      obtain ⟨ending, _, _, _, rfl, hend, hlex, hnil⟩ := hlex.exists_head hnodes
      obtain ⟨hkeyword, hident, rfl⟩ := Token.ofLexeme?_eq_ident.1 hword
      rw [Token.ofLexeme?_eq_colon.1 hmark, hlex.eq_nil hnil, List.append_nil]
      exact .related hident hkeyword (Token.ofLexeme?_eq_keyword.1 hend)
  · intro h
    cases h with
    | current => exact ⟨[], .nil, .current⟩
    | @along _ k hk => exact ⟨_, Token.lexes_keyword hk, .along k⟩
    | @related word ending e hword hkeyword hend =>
      obtain ⟨tokens, hlex, hnodes⟩ := Token.lexes_related hword hkeyword hend
      exact ⟨tokens, hlex, hnodes ▸ .related _ e⟩

/-- No mark of a directive stands in a route. -/
theorem Spelling.not_mem {cs : List Char} {route : Route} (h : Spelling cs route) {c : Char}
    (hc : c ∈ delimiters) (hne : c ≠ ':') : c ∉ cs := by
  cases h with
  | current => exact List.not_mem_nil
  | along hk => exact Keyword.delimiter_not_mem hk hc
  | related hword _ hend =>
    rw [List.mem_append, List.mem_cons]
    rintro (hmem | hmem | hmem)
    · exact delimiter_not_mem_of_isIdent hword hc hmem
    · exact hne hmem
    · exact Keyword.delimiter_not_mem hend hc hmem

end Route

/-! ## Attributes -/

namespace Attribute

/-- The texts of an attribute. -/
inductive Spelling : List Char → Attribute → Prop where
  | property {key : List Char} (hne : key ≠ [])
      (hkey : ∀ c ∈ key, c ≠ '\x7b' ∧ c ≠ '\x7d' ∧ c ≠ '$') :
      Spelling (propertyMark ++ key) (property (String.ofList key))
  | word {cs : List Char} (hne : cs ≠ []) (hword : ∀ c ∈ cs, c.isAlphanum = true ∨ c = '_') :
      Spelling cs (ofWord (String.ofList cs))

theorem isKeyChar_iff {c : Char} :
    isKeyChar c = true ↔ c ≠ '\x7b' ∧ c ≠ '\x7d' ∧ c ≠ '$' := by
  simp [isKeyChar, and_assoc]

theorem isWordChar_iff {c : Char} : isWordChar c = true ↔ c.isAlphanum = true ∨ c = '_' := by
  simp [isWordChar]

/-- A text stands for an attribute exactly if it is spelled as one. -/
theorem ofChars?_eq_some_iff {cs : List Char} {a : Attribute} :
    ofChars? cs = some a ↔ Spelling cs a := by
  unfold ofChars?
  constructor
  · intro h
    split at h
    · rename_i hmark
      obtain ⟨key, rfl⟩ := List.isPrefixOf_iff_prefix.1 hmark
      rw [List.drop_left] at h
      dsimp only at h
      split at h
      · rename_i hkey
        simp only [Bool.and_eq_true, Bool.not_eq_true', List.isEmpty_eq_false_iff, List.all_eq_true,
          isKeyChar_iff] at hkey
        cases h
        exact .property hkey.1 hkey.2
      · cases h
    · split at h
      · rename_i hword
        simp only [Bool.and_eq_true, Bool.not_eq_true', List.isEmpty_eq_false_iff, List.all_eq_true,
          isWordChar_iff] at hword
        cases h
        exact .word hword.1 hword.2
      · cases h
  · intro h
    cases h with
    | @property key hne hkey =>
      have hall : key.all isKeyChar = true :=
        List.all_eq_true.2 fun c hc => isKeyChar_iff.2 (hkey c hc)
      rw [if_pos (List.isPrefixOf_iff_prefix.2 (List.prefix_append _ key)), List.drop_left]
      simp [hne, hall]
    | word hne hword =>
      have hall : cs.all isWordChar = true :=
        List.all_eq_true.2 fun c hc => isWordChar_iff.2 (hword c hc)
      -- A word has no colon, so it does not announce a property key.
      have hmark : ¬ propertyMark.isPrefixOf cs = true := by
        intro hmark
        have hcolon : ':' ∈ cs := (List.isPrefixOf_iff_prefix.1 hmark).subset (by decide)
        exact absurd (hword _ hcolon) (by decide)
      rw [if_neg hmark]
      simp [hne, hall]

/-- No mark of a directive stands in an attribute. -/
theorem Spelling.not_mem {cs : List Char} {a : Attribute} (h : Spelling cs a) {c : Char}
    (hc : c ∈ delimiters) (hne : c ≠ ':') : c ∉ cs := by
  intro hmem
  cases h with
  | @property key _ hkey =>
    rcases List.mem_append.1 hmem with hmem | hmem
    · have hmark := of_mem_delimiters (fun c => c ≠ ':' → c ∉ propertyMark) hc (by decide)
      exact hmark hne hmem
    · have hmark := of_mem_delimiters
        (fun c => c ≠ ':' → ¬ (c ≠ '\x7b' ∧ c ≠ '\x7d' ∧ c ≠ '$')) hc (by decide)
      exact hmark hne (hkey c hmem)
  | word _ hword =>
    have hmark := of_mem_delimiters (fun c => ¬ (c.isAlphanum = true ∨ c = '_')) hc (by decide)
    exact hmark (hword c hmem)

end Attribute

/-! ## Directives -/

section UpTo
variable {c : Char} {before rest cs : List Char}

theorem takeWhile_ne_append (h : c ∉ before) :
    (before ++ c :: rest).takeWhile (· != c) = before := by
  have hne : ∀ d ∈ before, (d != c) = true := fun d hd => bne_iff_ne.2 fun he => h (he ▸ hd)
  rw [List.takeWhile_append_of_pos hne, List.takeWhile_cons_of_neg (by simp), List.append_nil]

theorem dropWhile_ne_append (h : c ∉ before) :
    (before ++ c :: rest).dropWhile (· != c) = c :: rest := by
  have hne : ∀ d ∈ before, (d != c) = true := fun d hd => bne_iff_ne.2 fun he => h (he ▸ hd)
  rw [List.dropWhile_append_of_pos hne, List.dropWhile_cons_of_neg (by simp)]

/-- A search that ends before the text does has found its character. -/
theorem eq_append_of_dropWhile_ne {d : Char} (h : cs.dropWhile (· != c) = d :: rest) :
    cs = cs.takeWhile (· != c) ++ c :: rest := by
  have hd := List.head?_dropWhile_not (· != c) cs
  rw [h] at hd
  have hdc : d = c := by simpa using hd
  rw [← hdc, ← h, hdc, List.takeWhile_append_dropWhile]

end UpTo

namespace Directive

/-- The texts of a directive whose dollar sign is at byte `dollar`: a route and an attribute between
their marks, each with its place. -/
inductive Written (dollar : Nat) : List Char → Directive → Prop where
  | mk {way word : List Char} {route : Route} {attr : Attribute}
      (hroute : Route.Spelling way route) (hattr : Attribute.Spelling word attr) :
      Written dollar ('$' :: (way ++ '\x7b' :: (word ++ ['\x7d'])))
        { route := ⟨route, ⟨dollar + 1, dollar + 1 + utf8Length way⟩⟩
          attr := ⟨attr, ⟨dollar + 1 + utf8Length way + 1,
            dollar + 1 + utf8Length way + 1 + utf8Length word⟩⟩ }

/-- A directive ends one byte behind its attribute. -/
theorem Written.stop_eq {dollar : Nat} {body : List Char} {d : Directive}
    (h : Written dollar body d) : d.attr.span.stop + 1 = dollar + utf8Length body := by
  cases h with
  | mk =>
    have hmarks : ('$').utf8Size = 1 ∧ ('\x7b').utf8Size = 1 ∧ ('\x7d').utf8Size = 1 := by decide
    simp only [utf8Length_cons, utf8Length_append, utf8Length_nil]
    omega

theorem readAttribute_eq_ok_iff {dollar opening : Nat} {cs rest : List Char}
    {attr : Spanned Attribute} : readAttribute dollar opening cs = .ok (attr, rest) ↔
      ∃ word, cs = word ++ '\x7d' :: rest ∧ Attribute.Spelling word attr.node ∧
        attr.span = ⟨opening + 1, opening + 1 + utf8Length word⟩ := by
  unfold readAttribute
  constructor
  · intro h
    dsimp only at h
    split at h
    · cases h
    · rename_i c tail hdrop
      split at h
      · rename_i a ha
        cases h
        exact ⟨_, eq_append_of_dropWhile_ne hdrop, Attribute.ofChars?_eq_some_iff.1 ha, rfl⟩
      · cases h
  · rintro ⟨word, rfl, hattr, hspan⟩
    have hclose : '\x7d' ∉ word := hattr.not_mem (by decide) (by decide)
    obtain ⟨node, span⟩ := attr
    cases hspan
    simp only [takeWhile_ne_append hclose, dropWhile_ne_append hclose,
      Attribute.ofChars?_eq_some_iff.2 hattr]

theorem isCut_eq_false {way : List Char} {route : Route} (h : Route.Spelling way route) :
    isCut way = false := by
  have hdollar : '$' ∉ way := h.not_mem (by decide) (by decide)
  have hclose : '\x7d' ∉ way := h.not_mem (by decide) (by decide)
  rw [isCut, List.any_eq_false]
  intro c hc
  simp only [Bool.or_eq_true, beq_iff_eq]
  rintro (rfl | rfl)
  · exact hdollar hc
  · exact hclose hc

/-- A directive is read behind a dollar sign exactly if one is written from the dollar sign on. -/
theorem read_eq_ok_iff {dollar : Nat} {cs : List Char} {r : Reading} :
    read dollar cs = .ok r ↔ ∃ body, '$' :: cs = body ++ r.rest ∧ Written dollar body r.directive ∧
      r.stop = dollar + utf8Length body := by
  unfold read
  constructor
  · intro h
    dsimp only at h
    split at h
    · cases h
    · rename_i c body hdrop
      have hcs := eq_append_of_dropWhile_ne hdrop
      split at h
      · cases h
      · split at h
        · cases h
        · rename_i route hroute
          split at h
          · cases h
          · rename_i attr rest hread
            obtain ⟨word, rfl, hword, hspan⟩ := readAttribute_eq_ok_iff.1 hread
            obtain ⟨attr, span⟩ := attr
            cases hspan
            cases h
            have hwritten : Written dollar _ _ := .mk (Route.read_eq_ok_iff.1 hroute) hword
            refine ⟨_, (congrArg ('$' :: ·) hcs).trans ?_, hwritten, hwritten.stop_eq⟩
            simp only [List.cons_append, List.append_assoc, List.nil_append]
  · rintro ⟨body, hcs, hwritten, hstop⟩
    obtain ⟨d, stop, rest⟩ := r
    obtain rfl : stop = d.attr.span.stop + 1 := hstop.trans hwritten.stop_eq.symm
    cases hwritten with
    | @mk way word route attr hroute hattr =>
      have hopen : '\x7b' ∉ way := hroute.not_mem (by decide) (by decide)
      obtain rfl : cs = way ++ '\x7b' :: (word ++ '\x7d' :: rest) := by
        simpa using hcs
      have hread : ∀ opening, readAttribute dollar opening (word ++ '\x7d' :: rest) =
          .ok (⟨attr, ⟨opening + 1, opening + 1 + utf8Length word⟩⟩, rest) := fun opening =>
        readAttribute_eq_ok_iff.2 ⟨word, rfl, hattr, rfl⟩
      simp only [takeWhile_ne_append hopen, dropWhile_ne_append hopen, isCut_eq_false hroute,
        Route.read_eq_ok_iff.2 hroute, hread, Bool.false_eq_true, if_false]

end Directive

end ModelLabels
