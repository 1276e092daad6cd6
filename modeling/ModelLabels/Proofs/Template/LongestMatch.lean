import ModelLabels.Proofs.Template.Tiling
/-! # Longest match

A text is divided without a gap into tokens, each of them the longest one at its place.  Where this does
not reach the end of the text, it reaches a character that begins no token, and what stands before that
character is divided in the same way by itself.

* `Token.LexesTo`: the tokens of a text up to a rest that begins behind them; `lexesTo_lexFrom`,
  `LexesTo.lexes_before`.
* `Token.Division`: what this says in terms of spans; `LexesTo.division`.
* `Token.lex_longest_match`: the property.
-/

namespace ModelLabels
set_option autoImplicit false

/-- Spans that are not empty lie one behind the other, from one byte to another. -/
def Span.Contiguous : Nat → List Span → Nat → Prop
  | start, [], stop => start = stop
  | start, s :: rest, stop => s.start = start ∧ s.start < s.stop ∧ Contiguous s.stop rest stop

/-- Where there is a boundary between characters, a text is divided in two. -/
theorem exists_append_of_isValid {text : String} {byte : Nat}
    (h : String.Pos.Raw.IsValid text ⟨byte⟩) :
    ∃ before after, text.toList = before ++ after ∧ byte = utf8Length before := by
  obtain ⟨before, after, rfl, hbyte⟩ := String.Pos.Raw.isValid_iff_exists_append.1 h
  refine ⟨before.toList, after.toList, String.toList_append, ?_⟩
  rw [← utf8ByteSize_eq]
  exact congrArg String.Pos.Raw.byteIdx hbyte

namespace Token

/-! ## Tokens up to a rest -/

/-- A text whose first byte is at a position is divided into tokens up to a rest.  Each token is the
longest one in view of all that follows it, the rest included. -/
inductive LexesTo : Nat → List Char → List (Spanned Token) → List Char → Prop where
  | nil {pos : Nat} {rest : List Char} : LexesTo pos rest [] rest
  | cons {pos : Nat} {token : Token} {lexeme more rest : List Char} {tokens : List (Spanned Token)}
      (hlongest : Longest (lexeme ++ more) lexeme token)
      (hmore : LexesTo (pos + utf8Length lexeme) more tokens rest) :
      LexesTo pos (lexeme ++ more) (⟨token, ⟨pos, pos + utf8Length lexeme⟩⟩ :: tokens) rest

section LexesTo
variable {pos : Nat} {cs rest : List Char} {tokens : List (Spanned Token)}

/-- What stands before the rest has the same tokens by itself. -/
theorem LexesTo.lexes_before (h : LexesTo pos cs tokens rest) :
    ∃ before, cs = before ++ rest ∧ Lexes pos before tokens := by
  induction h with
  | nil => exact ⟨[], rfl, .nil⟩
  | @cons pos token lexeme more rest tokens hlongest _ ih =>
    obtain ⟨before, rfl, hbefore⟩ := ih
    have hpart : lexeme ++ before <+: lexeme ++ (before ++ rest) := ⟨rest, by simp⟩
    have hhead := head?_eq_some_iff.2 (hlongest.of_prefix hpart (List.prefix_append _ _))
    exact ⟨lexeme ++ before, by simp, .cons hhead hbefore⟩

/-- A text is divided up to its end, or up to a character that begins no token. -/
theorem lexesTo_lexFrom (pos : Nat) (cs : List Char) :
    match lexFrom pos cs with
    | .ok tokens => LexesTo pos cs tokens []
    | .error span => ∃ tokens before c after, cs = before ++ c :: after ∧
        span = ⟨pos + utf8Length before, pos + utf8Length before + c.utf8Size⟩ ∧
        LexesTo pos cs tokens (c :: after) ∧
        ∀ lexeme token, lexeme <+: c :: after → ¬ Spelling lexeme token := by
  fun_induction lexFrom pos cs with
  | case1 pos => exact .nil
  | case2 pos c rest hnone =>
    exact ⟨[], [], c, rest, rfl, rfl, .nil, head?_eq_none_iff.1 hnone⟩
  | case3 pos c rest token lexeme hhead more hmore ih =>
    rw [hmore] at ih
    have happend := append_drop_of_head? hhead
    have hcons : LexesTo pos (lexeme ++ _) _ _ :=
      .cons (head?_eq_some_iff.1 (happend.symm ▸ hhead)) ih
    rwa [happend] at hcons
  | case4 pos c rest token lexeme hhead span hspan ih =>
    rw [hspan] at ih
    obtain ⟨tokens, before, d, after, hdrop, rfl, hlexes, hnone⟩ := ih
    have happend := append_drop_of_head? hhead
    have hcons : LexesTo pos (lexeme ++ _) _ _ :=
      .cons (head?_eq_some_iff.1 (happend.symm ▸ hhead)) hlexes
    rw [happend] at hcons
    refine ⟨_, lexeme ++ before, d, after, ?_, ?_, hcons, hnone⟩
    · rw [← happend, hdrop, List.append_assoc]
    · rw [utf8Length_append, Nat.add_assoc pos]

/-- Every token stands at its place in the text, and is the longest one there. -/
theorem LexesTo.exists_lexeme (h : LexesTo pos cs tokens rest) {t : Spanned Token} (ht : t ∈ tokens) :
    ∃ before lexeme after, cs = before ++ (lexeme ++ after) ∧
      t.span = ⟨pos + utf8Length before, pos + utf8Length before + utf8Length lexeme⟩ ∧
      Longest (lexeme ++ after) lexeme t.node := by
  induction h with
  | nil => cases ht
  | @cons pos token lexeme more rest tokens hlongest _ ih =>
    rcases List.mem_cons.1 ht with rfl | ht
    · exact ⟨[], lexeme, more, rfl, rfl, hlongest⟩
    · obtain ⟨before, next, after, rfl, hspan, hnext⟩ := ih ht
      refine ⟨lexeme ++ before, next, after, by simp, ?_, hnext⟩
      rw [hspan, utf8Length_append, Nat.add_assoc pos]

theorem Lexes.contiguous (h : Lexes pos cs tokens) :
    Span.Contiguous pos (tokens.map (·.span)) (pos + utf8Length cs) := by
  induction h with
  | nil => rfl
  | @cons pos token lexeme rest tokens hhead _ ih =>
    have hpos : 0 < utf8Length lexeme :=
      Nat.pos_of_ne_zero fun hzero => lexeme_ne_nil_of_head? hhead (utf8Length_eq_zero.1 hzero)
    rw [utf8Length_append, ← Nat.add_assoc]
    exact ⟨rfl, Nat.lt_add_of_pos_right hpos, ih⟩

end LexesTo

/-! ## Spans -/

/-- A text is divided up to a byte into tokens.  What a token stands for is the part of the text under
its span. -/
structure Division (text : String) (stop : Nat) (tokens : List (Spanned Token)) : Prop where
  contiguous : Span.Contiguous 0 (tokens.map (·.span)) stop
  boundaries : ∀ t ∈ tokens,
    String.Pos.Raw.IsValid text ⟨t.span.start⟩ ∧ String.Pos.Raw.IsValid text ⟨t.span.stop⟩
  spelling : ∀ t ∈ tokens, Spelling (t.span.slice text).toList t.node
  /-- What a token stands for is no token any more when characters that follow are added to it. -/
  longest : ∀ t ∈ tokens, ∀ stop', t.span.stop < stop' → String.Pos.Raw.IsValid text ⟨stop'⟩ →
    ∀ longer, ¬ Spelling (Span.slice ⟨t.span.start, stop'⟩ text).toList longer
  /-- What a token stands for has that token by itself. -/
  alone : ∀ t ∈ tokens,
    lex (t.span.slice text).toList = .ok [⟨t.node, ⟨0, t.span.stop - t.span.start⟩⟩]

theorem Longest.lex_lexeme {cs lexeme : List Char} {token : Token} (h : Longest cs lexeme token) :
    lex lexeme = .ok [⟨token, ⟨0, utf8Length lexeme⟩⟩] := by
  have hhead : head? (lexeme ++ []) = some (token, lexeme) := by
    rw [List.append_nil]
    exact head?_eq_some_iff.2 (h.of_prefix h.head List.prefix_rfl)
  have hlexes : Lexes 0 (lexeme ++ []) [⟨token, ⟨0, 0 + utf8Length lexeme⟩⟩] := .cons hhead .nil
  rw [List.append_nil, Nat.zero_add] at hlexes
  exact lexFrom_eq_ok_iff.2 hlexes

section Division
variable {text : String} {before lexeme after rest : List Char} {token : Token}
variable {tokens : List (Spanned Token)}

/-- A longer part of a text than its longest token is no token. -/
theorem Longest.not_spelling_slice (h : Longest (lexeme ++ after) lexeme token)
    (htext : text.toList = before ++ (lexeme ++ after)) {stop : Nat}
    (hlt : utf8Length before + utf8Length lexeme < stop)
    (hvalid : String.Pos.Raw.IsValid text ⟨stop⟩) (longer : Token) :
    ¬ Spelling (Span.slice ⟨utf8Length before, stop⟩ text).toList longer := by
  obtain ⟨upTo, behind, hupTo, rfl⟩ := exists_append_of_isValid hvalid
  -- The longer part begins with the token, so there is more of it behind the token.
  obtain ⟨more, rfl⟩ : before ++ lexeme <+: upTo := by
    have hhead : before ++ lexeme <+: text.toList := ⟨after, by rw [htext, List.append_assoc]⟩
    refine (List.prefix_or_prefix_of_prefix hhead ⟨behind, hupTo.symm⟩).resolve_right ?_
    rintro ⟨between, hbetween⟩
    have hlength := congrArg utf8Length hbetween
    rw [utf8Length_append, utf8Length_append] at hlength
    omega
  have hpart : text.toList = before ++ ((lexeme ++ more) ++ behind) := by
    rw [hupTo, List.append_assoc, List.append_assoc, List.append_assoc]
  have hafter : lexeme ++ after = (lexeme ++ more) ++ behind :=
    List.append_cancel_left (htext.symm.trans hpart)
  have hstop : utf8Length (before ++ lexeme ++ more) =
      utf8Length before + utf8Length (lexeme ++ more) := by
    rw [List.append_assoc, utf8Length_append]
  rw [slice_append hpart rfl hstop, String.toList_ofList]
  intro hlonger
  have hle := h.length_le ⟨behind, hafter.symm⟩ hlonger
  obtain rfl : more = [] := by
    rw [List.length_append] at hle
    exact List.eq_nil_of_length_eq_zero (by omega)
  rw [List.append_nil, utf8Length_append] at hlt
  omega

theorem LexesTo.exists_slice (h : LexesTo 0 text.toList tokens rest) {t : Spanned Token}
    (ht : t ∈ tokens) : ∃ before lexeme after, text.toList = before ++ (lexeme ++ after) ∧
      t.span = ⟨utf8Length before, utf8Length before + utf8Length lexeme⟩ ∧
      t.span.slice text = String.ofList lexeme ∧ Longest (lexeme ++ after) lexeme t.node := by
  obtain ⟨before, lexeme, after, htext, hspan, hlongest⟩ := h.exists_lexeme ht
  rw [Nat.zero_add] at hspan
  refine ⟨before, lexeme, after, htext, hspan, ?_, hlongest⟩
  exact slice_append htext (congrArg Span.start hspan) (congrArg Span.stop hspan)

/-- A division of a text up to a rest, in terms of spans. -/
theorem LexesTo.division (h : LexesTo 0 text.toList tokens rest)
    (hbefore : text.toList = before ++ rest) : Division text (utf8Length before) tokens where
  contiguous := by
    obtain ⟨before', hrest, hlexes⟩ := h.lexes_before
    obtain rfl : before = before' := List.append_cancel_right (hbefore.symm.trans hrest)
    have hcontiguous := hlexes.contiguous
    rwa [Nat.zero_add] at hcontiguous
  boundaries t ht := by
    obtain ⟨before, lexeme, after, htext, hspan, -, -⟩ := h.exists_slice ht
    rw [hspan, ← utf8Length_append]
    exact ⟨isValid_of_append htext, isValid_of_append (by rw [htext, List.append_assoc])⟩
  spelling t ht := by
    obtain ⟨_, lexeme, _, -, -, hslice, hlongest⟩ := h.exists_slice ht
    rw [hslice, String.toList_ofList]
    exact hlongest.spelling
  longest t ht stop' hlt hvalid longer := by
    obtain ⟨before, lexeme, after, htext, hspan, -, hlongest⟩ := h.exists_slice ht
    rw [hspan] at hlt ⊢
    exact hlongest.not_spelling_slice htext hlt hvalid longer
  alone t ht := by
    obtain ⟨_, lexeme, _, -, hspan, hslice, hlongest⟩ := h.exists_slice ht
    rw [hslice, String.toList_ofList, hlongest.lex_lexeme, hspan, Nat.add_sub_cancel_left]

end Division

/-! ## The property -/

/-- A text is divided without a gap into tokens, each the longest one at its place, or up to a character
that begins no token; the error is that character, and what stands before it has those tokens. -/
theorem lex_longest_match (text : String) :
    match lex text.toList with
    | .ok tokens => Division text text.utf8ByteSize tokens
    | .error span => ∃ before c after, text.toList = before ++ c :: after ∧
        span = ⟨utf8Length before, utf8Length before + c.utf8Size⟩ ∧
        (∀ lexeme token, lexeme <+: c :: after → ¬ Spelling lexeme token) ∧
        ∃ tokens, lex before = .ok tokens ∧ Division text span.start tokens := by
  have hlexes := lexesTo_lexFrom 0 text.toList
  unfold lex
  cases hresult : lexFrom 0 text.toList with
  | ok tokens =>
    rw [hresult] at hlexes
    rw [utf8ByteSize_eq]
    exact hlexes.division (List.append_nil _).symm
  | error span =>
    rw [hresult] at hlexes
    obtain ⟨tokens, before, c, after, htext, rfl, hlexes, hnone⟩ := hlexes
    obtain ⟨before', hrest, hbefore⟩ := hlexes.lexes_before
    obtain rfl : before = before' := List.append_cancel_right (htext.symm.trans hrest)
    dsimp only
    rw [Nat.zero_add]
    exact ⟨before, c, after, htext, rfl, hnone, tokens, lexFrom_eq_ok_iff.2 hbefore,
      hlexes.division htext⟩

/-- A letter that only keywords have ends an identifier. -/
example : (lex "viewſource".toList).toOption = some
    [⟨keyword .view, ⟨0, 4⟩⟩, ⟨keyword .source, ⟨4, 11⟩⟩] := by decide +kernel

end Token

end ModelLabels
