import ModelLabels.Proofs.Template.LongestMatch
/-! # Reports of routes

A route that is not well formed is reported where its longest part ends that could still become a route.
What the report suggests does go on from there, and behind the first token it suggests all that does.

* `Route.Viable`, `Route.Continues`: tokens that begin those of a route, and what goes on from them.
* `Route.Tokens`: the tokens of routes; `isRoute_iff`, `viable_iff`.
* `Route.continues_ident`, `continues_colon`, `continues_route`: what goes on, by how far it is.
* `Route.Reported`: what a report says; `reported_of_ofTokens`, `marks_of_read`.
* `Route.report_at_longest_viable`: the property.
-/

namespace ModelLabels
set_option autoImplicit false

namespace Route

/-! ## Tokens that begin a route -/

/-- Whether tokens are those of a text that is a route. -/
def IsRoute (ts : List Token) : Prop :=
  ∃ cs tokens route, Token.lex cs = .ok tokens ∧ tokens.map (·.node) = ts ∧ Spelling cs route

/-- Whether tokens begin those of a route. -/
def Viable (ts : List Token) : Prop := ∃ more, IsRoute (ts ++ more)

/-- Whether a route goes on behind tokens with another token, or ends there, before the brace. -/
def Continues (ts : List Token) : Expected → Prop
  | .token t => Viable (ts ++ [t])
  | .brace => IsRoute ts

/-- Whether a token is an identifier of some text. -/
def IsName (name : String) : Prop := ∃ word, Token.ofLexeme? word = some (.ident name)

/-- The tokens of routes. -/
inductive Tokens : List Token → Prop where
  | current : Tokens []
  | along (k : Keyword) : Tokens [.keyword k]
  | related {name : String} (hname : IsName name) (e : Endpoint) :
      Tokens [.ident name, .colon, .keyword e.keyword]

section Viable
variable {ts : List Token} {name : String} {e : Expected}

theorem isRoute_iff : IsRoute ts ↔ Tokens ts := by
  constructor
  · rintro ⟨cs, tokens, route, hlex, rfl, hspelling⟩
    have hread : read 0 cs = .ok route := read_eq_ok_iff.2 hspelling
    obtain ⟨tokens', hlexes, hparses⟩ := read_eq_ok.1 hread
    rw [Token.lex, Token.lexFrom_eq_ok_iff.2 hlexes] at hlex
    cases hlex
    generalize hnodes : tokens.map (·.node) = nodes at hparses
    cases hparses with
    | current => exact .current
    | along k => exact .along k
    | related name e =>
      obtain ⟨word, -, -, -, -, hword, -⟩ := hlexes.exists_head hnodes
      exact .related ⟨word, hword⟩ e
  · intro h
    cases h with
    | current => exact ⟨[], [], .current, by rw [Token.lex, Token.lexFrom], rfl, .current⟩
    | along k =>
      have hk := k.isSpelledBy_letters
      exact ⟨k.letters, _, _, Token.lexFrom_eq_ok_iff.2 (Token.lexes_keyword hk), rfl, .along hk⟩
    | related hname e =>
      obtain ⟨word, hword⟩ := hname
      obtain ⟨hkeyword, hident, rfl⟩ := Token.ofLexeme?_eq_ident.1 hword
      have hend := e.keyword.isSpelledBy_letters
      obtain ⟨tokens, hlexes, hnodes⟩ := Token.lexes_related hident hkeyword hend
      exact ⟨_, tokens, _, Token.lexFrom_eq_ok_iff.2 hlexes, hnodes, .related hident hkeyword hend⟩

theorem viable_iff : Viable ts ↔ ∃ more, Tokens (ts ++ more) := exists_congr fun _ => isRoute_iff

theorem Tokens.viable (h : Tokens ts) : Viable ts :=
  viable_iff.2 ⟨[], by rwa [List.append_nil]⟩

theorem not_viable_colon : ¬ Viable [.colon] := by
  rw [viable_iff]
  rintro ⟨more, h⟩
  cases h

/-! ## What goes on -/

theorem continues_ident (hname : IsName name) : Continues [.ident name] e ↔ e ∈ afterIdent := by
  simp only [afterIdent, List.mem_singleton]
  constructor
  · intro h
    cases e with
    | token t =>
      obtain ⟨more, hmore⟩ := viable_iff.1 h
      cases hmore
      rfl
    | brace => cases isRoute_iff.1 h
  · rintro rfl
    exact viable_iff.2 ⟨[.keyword .source], .related hname .source⟩

theorem continues_colon (hname : IsName name) :
    Continues [.ident name, .colon] e ↔ e ∈ afterColon := by
  simp only [afterColon, List.mem_cons, List.not_mem_nil, or_false]
  constructor
  · intro h
    cases e with
    | token t =>
      obtain ⟨more, hmore⟩ := viable_iff.1 h
      cases hmore with
      | related _ e => cases e <;> simp [Endpoint.keyword]
    | brace => cases isRoute_iff.1 h
  · rintro (rfl | rfl)
    · exact (Tokens.related hname .source).viable
    · exact (Tokens.related hname .target).viable

/-- Behind a route that is not empty there is nothing but the brace. -/
theorem continues_route (h : Tokens ts) (hne : ts ≠ []) : Continues ts e ↔ e ∈ [Expected.brace] := by
  rw [List.mem_singleton]
  constructor
  · intro he
    cases e with
    | token t =>
      obtain ⟨more, hmore⟩ := viable_iff.1 he
      cases h with
      | current => exact absurd rfl hne
      | along k => cases hmore
      | related _ e =>
        generalize hlong : [Token.ident _, .colon, .keyword e.keyword] ++ [t] ++ more = us at hmore
        cases hmore <;> simp at hlong
    | brace => rfl
  · rintro rfl
    exact isRoute_iff.2 h

end Viable

/-! ## Reports -/

/-- What a report says, when the tokens before its place are those seen, and those ahead stand there: it
is about the token that stands there, or about the end of the route at a byte, the tokens seen begin a
route, and what is about to be seen does not go on from them, while what is suggested does.  If any
tokens have been seen, all that goes on from them is suggested. -/
structure Reported (stop : Nat) (seen ahead : List (Spanned Token)) (d : Spanned Defect) : Prop where
  viable : Viable (seen.map (·.node))
  place : match ahead with
    | [] => d = ⟨.endsEarly d.node.expected, ⟨stop, stop⟩⟩ ∧ ¬ IsRoute (seen.map (·.node))
    | t :: _ => d = ⟨.unexpectedToken t.node d.node.expected, t.span⟩ ∧
        ¬ Viable (seen.map (·.node) ++ [t.node])
  continues : ∀ e ∈ d.node.expected, Continues (seen.map (·.node)) e
  complete : seen ≠ [] → ∀ e, Continues (seen.map (·.node)) e → e ∈ d.node.expected

section Reported
variable {stop : Nat} {seen ahead tokens : List (Spanned Token)} {d : Spanned Defect}

/-- What stands ahead of the tokens seen; behind the last one it is the brace. -/
def next : List (Spanned Token) → Expected
  | [] => .brace
  | t :: _ => .token t.node

/-- Where all that goes on is expected, what is out of place is reported as it should be. -/
theorem reported_misplaced {expected : List Expected} (hviable : Viable (seen.map (·.node)))
    (hexact : ∀ e, Continues (seen.map (·.node)) e ↔ e ∈ expected) (hnext : next ahead ∉ expected) :
    Reported stop seen ahead (misplaced stop expected ahead) := by
  have hplace := mt (hexact (next ahead)).1 hnext
  cases ahead with
  | nil => exact ⟨hviable, ⟨rfl, hplace⟩, fun e => (hexact e).2, fun _ e => (hexact e).1⟩
  | cons t rest => exact ⟨hviable, ⟨rfl, hplace⟩, fun e => (hexact e).2, fun _ e => (hexact e).1⟩

theorem reported_of_complete {route : Route} (hseen : Tokens (seen.map (·.node))) (hne : seen ≠ [])
    (h : complete stop route ahead = .error d) : Reported stop seen ahead d := by
  cases ahead with
  | nil => cases h
  | cons t rest =>
    cases h
    have hnodes : seen.map (·.node) ≠ [] := fun hnil => hne (List.map_eq_nil_iff.1 hnil)
    exact reported_misplaced hseen.viable (fun e => continues_route hseen hnodes) (by simp [next])

theorem reported_of_ofEnd {name : String} (hname : IsName name)
    (hseen : seen.map (·.node) = [.ident name, .colon]) (h : ofEnd stop name tokens = .error d) :
    ∃ more ahead, tokens = more ++ ahead ∧ Reported stop (seen ++ more) ahead d := by
  have hviable : Viable (seen.map (·.node)) := by
    rw [hseen]
    exact viable_iff.2 ⟨[.keyword .source], .related hname .source⟩
  have hexact (e : Expected) : Continues (seen.map (·.node)) e ↔ e ∈ afterColon := by
    rw [hseen]
    exact continues_colon hname
  cases tokens with
  | nil =>
    cases h
    refine ⟨[], [], rfl, ?_⟩
    rw [List.append_nil]
    exact reported_misplaced hviable hexact (by simp [next, afterColon])
  | cons t rest =>
    unfold ofEnd at h
    cases he : t.node.endpoint? with
    | some e =>
      have hnode := Token.endpoint?_eq_some.1 he
      simp only [he] at h
      refine ⟨[t], rest, rfl, reported_of_complete ?_ (by simp) h⟩
      rw [List.map_append, hseen, List.map_singleton, hnode]
      exact .related hname e
    | none =>
      simp only [he] at h
      cases h
      refine ⟨[], t :: rest, rfl, ?_⟩
      rw [List.append_nil]
      refine reported_misplaced hviable hexact fun hmem => ?_
      simp only [next, afterColon, List.mem_cons, Expected.token.injEq, List.not_mem_nil,
        or_false] at hmem
      rcases hmem with hnode | hnode
      all_goals
        rw [hnode] at he
        cases he

theorem reported_of_ofColon {name : String} (hname : IsName name)
    (hseen : seen.map (·.node) = [.ident name]) (h : ofColon stop name tokens = .error d) :
    ∃ more ahead, tokens = more ++ ahead ∧ Reported stop (seen ++ more) ahead d := by
  unfold ofColon at h
  split at h
  · rename_i span rest
    have hcolon : (seen ++ [(⟨.colon, span⟩ : Spanned Token)]).map (·.node) =
        [.ident name, .colon] := by
      rw [List.map_append, hseen]
      rfl
    obtain ⟨more, ahead, rfl, hreported⟩ := reported_of_ofEnd hname hcolon h
    exact ⟨⟨.colon, span⟩ :: more, ahead, rfl, by simpa using hreported⟩
  · rename_i hnot
    cases h
    refine ⟨[], tokens, rfl, ?_⟩
    rw [List.append_nil]
    refine reported_misplaced ?_ (fun e => ?_) fun hmem => ?_
    · rw [hseen]
      exact viable_iff.2 ⟨[.colon, .keyword .source], .related hname .source⟩
    · rw [hseen]
      exact continues_ident hname
    · cases tokens with
      | nil => simp [next, afterIdent] at hmem
      | cons t rest =>
        obtain ⟨node, span⟩ := t
        simp only [next, afterIdent, List.mem_singleton, Expected.token.injEq] at hmem
        cases hmem
        exact hnot span rest rfl

/-- Whatever is out of place among the tokens of a text, it is reported as it should be. -/
theorem reported_of_ofTokens {pos : Nat} {cs : List Char} (hlexes : Token.Lexes pos cs tokens)
    (h : ofTokens stop tokens = .error d) :
    ∃ seen ahead, tokens = seen ++ ahead ∧ Reported stop seen ahead d := by
  unfold ofTokens at h
  split at h
  · cases h
  · rename_i k span rest
    exact ⟨[⟨.keyword k, span⟩], rest, rfl, reported_of_complete (.along k) (by simp) h⟩
  · rename_i name span rest
    obtain ⟨word, -, -, -, -, hword, -⟩ := hlexes.exists_head rfl
    have hseen : [(⟨.ident name, span⟩ : Spanned Token)].map (·.node) = [.ident name] := rfl
    obtain ⟨more, ahead, rfl, hreported⟩ := reported_of_ofColon ⟨word, hword⟩ hseen h
    exact ⟨_, ahead, rfl, hreported⟩
  · rename_i span rest
    -- Identifiers go on from here, too, so this is the place where not all that does is suggested.
    cases h
    refine ⟨[], _, rfl, Tokens.current.viable, ⟨rfl, not_viable_colon⟩, fun e he => ?_, fun hne => ?_⟩
    · obtain ⟨k, -, rfl⟩ := List.mem_map.1 he
      exact (Tokens.along k).viable
    · exact absurd rfl hne

end Reported

/-- What is wrong with a route is a token of it, its end, or a character that begins no token. -/
theorem marks_of_read {start : Nat} {cs : List Char} {d : Spanned Defect}
    (h : read start cs = .error d) : ∃ part, d.span.Marks start cs part := by
  have hlexes := Token.lexesTo_lexFrom start cs
  unfold read at h
  cases hresult : Token.lexFrom start cs with
  | error span =>
    rw [hresult] at h hlexes
    cases h
    obtain ⟨tokens, before, c, after, rfl, hspan, -⟩ := hlexes
    exact ⟨[c], before, after, rfl, hspan⟩
  | ok tokens =>
    rw [hresult] at h hlexes
    obtain ⟨seen, ahead, rfl, hreported⟩ := reported_of_ofTokens (Token.lexFrom_eq_ok_iff.1 hresult) h
    have hplace := hreported.place
    cases ahead with
    | nil => exact ⟨[], cs, [], by simp, congrArg Spanned.span hplace.1⟩
    | cons t rest =>
      obtain ⟨before, lexeme, after, hcs, hspan, -⟩ := hlexes.exists_lexeme (t := t) (by simp)
      exact ⟨lexeme, before, after, hcs, (congrArg Spanned.span hplace.1).trans hspan⟩

/-! ## The property -/

/-- A text that has tokens and is no route is reported where its longest part ends that begins a route.
The tokens before that place begin one, with the token that stands there they do not, and if there is
none they are no route; what is suggested goes on from them.  Behind the first token all that does is
suggested. -/
theorem report_at_longest_viable {start : Nat} {cs : List Char} {tokens : List (Spanned Token)}
    (hlex : Token.lexFrom start cs = .ok tokens) (hnot : ∀ route, ¬ Spelling cs route) :
    ∃ d seen ahead, read start cs = .error d ∧ tokens = seen ++ ahead ∧
      Reported (start + utf8Length cs) seen ahead d := by
  have hread : read start cs = ofTokens (start + utf8Length cs) tokens := by rw [read, hlex]
  cases hresult : read start cs with
  | ok route => exact absurd (read_eq_ok_iff.1 hresult) (hnot route)
  | error d =>
    obtain ⟨seen, ahead, htokens, hreported⟩ :=
      reported_of_ofTokens (Token.lexFrom_eq_ok_iff.1 hlex) (hread.symm.trans hresult)
    exact ⟨d, seen, ahead, rfl, htokens, hreported⟩

/-- Behind an identifier and a colon, a keyword that names no end is reported, and the two that do are
suggested. -/
theorem report_at_longest_viable_ending :
    let cs := ['f', 'l', 'o', 'w', ':', 'p', 'a', 'r', 'e', 'n', 't']
    let tokens : List (Spanned Token) :=
      [⟨.ident "flow", ⟨1, 5⟩⟩, ⟨.colon, ⟨5, 6⟩⟩, ⟨.keyword .parent, ⟨6, 12⟩⟩]
    let d : Spanned Defect := ⟨.unexpectedToken (.keyword .parent) afterColon, ⟨6, 12⟩⟩
    Token.lexFrom 1 cs = .ok tokens ∧ (∀ route, ¬ Spelling cs route) ∧ read 1 cs = .error d ∧
      ∃ seen ahead, tokens = seen ++ ahead ∧ Reported 12 seen ahead d := by
  intro cs tokens d
  have hlexes :
      Token.Lexes 1 (['f', 'l', 'o', 'w'] ++ ([':'] ++ ['p', 'a', 'r', 'e', 'n', 't'])) tokens :=
    .cons (Token.head?_ident (fun k => by cases k <;> decide) (by decide))
      (.cons Token.head?_colon (Token.lexes_keyword (by decide)))
  have hlex : Token.lexFrom 1 cs = .ok tokens := Token.lexFrom_eq_ok_iff.2 hlexes
  have hread : read 1 cs = .error d := by
    rw [read, hlex]
    rfl
  have hnot (route : Route) : ¬ Spelling cs route := by
    intro h
    rw [read_eq_ok_iff.2 h] at hread
    cases hread
  obtain ⟨d', seen, ahead, hread', htokens, hreported⟩ := report_at_longest_viable hlex hnot
  rw [hread] at hread'
  cases hread'
  exact ⟨hlex, hnot, hread, seen, ahead, htokens, hreported⟩

end Route

end ModelLabels
