import ModelLabels.Proofs.Template.Occurrence
import ModelLabels.Proofs.Template.Tiling
/-! # The written form of a template

Writing the segments of a text one behind the other gives a text with the same segments.  Directives
change their spelling on the way, but no directive holds a dollar sign inside; so one that would start
in literal text would have to end there too, and none does.

* `Directive.Absent`: no directive is written anywhere in a text.
* `Segment.Tiles.eq_scanFrom`: reading is the only division of a text into segments whose literal texts
  are free of directives; `plain_scanFrom`: it is one.
* `Route.Spelling.written`, `Attribute.Spelling.eq_text`: written forms are spelled as what they are of.
* `Template.written_form_normal`: the written form of a template is read as the same template.
-/

namespace ModelLabels
set_option autoImplicit false

/-! ## Texts without directives -/

namespace Directive

/-- Whether a text begins with a directive. -/
def Starts (cs : List Char) : Prop :=
  ∃ pos body rest d, cs = body ++ rest ∧ Written pos body d

/-- Whether no directive is written in a text, wherever it would start. -/
def Absent : List Char → Prop
  | [] => True
  | c :: cs => ¬ Starts (c :: cs) ∧ Absent cs

theorem Written.shift {pos : Nat} {body : List Char} {d : Directive} (h : Written pos body d)
    (other : Nat) : ∃ d', Written other body d' := by
  cases h with
  | mk hroute hattr => exact ⟨_, .mk hroute hattr⟩

section Starts
variable {cs ds : List Char} {c : Char} {pos : Nat}

theorem Starts.append (h : Starts cs) (ds : List Char) : Starts (cs ++ ds) := by
  obtain ⟨pos, body, rest, d, rfl, hwritten⟩ := h
  exact ⟨pos, body, rest ++ ds, d, List.append_assoc .., hwritten⟩

/-- A directive that starts before a dollar sign ends before it. -/
theorem Starts.of_append (h : Starts (c :: cs ++ ds)) (hds : ∀ x ∈ ds.head?, x = '$') :
    Starts (c :: cs) := by
  obtain ⟨pos, body, rest, d, happend, hwritten⟩ := h
  rcases List.append_eq_append_iff.1 happend with ⟨more, hbody, hmore⟩ | ⟨more, hcs, -⟩
  · cases more with
    | nil =>
      rw [List.append_nil] at hbody
      exact ⟨pos, body, [], d, by rw [hbody, List.append_nil], hwritten⟩
    | cons x more =>
      -- The dollar sign would stand inside of the directive.
      obtain rfl : x = '$' := hds x (by rw [hmore]; rfl)
      obtain ⟨inner, rfl, hinner⟩ := hwritten.cons
      have htail : inner = cs ++ '$' :: more := (List.cons.inj hbody).2
      exact absurd (htail ▸ List.mem_append_right cs List.mem_cons_self) hinner
  · exact ⟨pos, body, more, d, hcs, hwritten⟩

/-- A text begins with a directive exactly if one is read behind its first character, a dollar sign. -/
theorem starts_cons_iff (pos : Nat) :
    Starts (c :: cs) ↔ c = '$' ∧ ∃ r, Directive.read pos cs = .ok r := by
  constructor
  · rintro ⟨other, body, rest, d, happend, hwritten⟩
    obtain ⟨d', hwritten⟩ := hwritten.shift pos
    obtain ⟨inner, rfl, -⟩ := hwritten.cons
    obtain ⟨rfl, rfl⟩ := List.cons.inj happend
    exact ⟨rfl, _, hwritten.read⟩
  · rintro ⟨rfl, r, hread⟩
    obtain ⟨body, hbody, hwritten, -⟩ := read_eq_ok_iff.1 hread
    exact ⟨pos, body, r.rest, r.directive, hbody, hwritten⟩

end Starts

end Directive

/-! ## Reading as a division without directives in literal text -/

namespace Template
open Directive

theorem scanFrom_cons_of_not_starts {c : Char} {cs : List Char} (pos : Nat)
    (h : ¬ Starts (c :: cs)) : (scanFrom pos (c :: cs)).segments =
      Segment.push pos c (scanFrom (pos + c.utf8Size) cs).segments := by
  rw [scanFrom]
  split
  · rename_i hc
    split
    · rename_i r hread
      exact absurd ((starts_cons_iff pos).2 ⟨hc, r, hread⟩) h
    · rfl
  · rfl

theorem scanFrom_of_written {pos : Nat} {body : List Char} {d : Directive}
    (h : Written pos body d) (rest : List Char) : (scanFrom pos (body ++ rest)).segments =
      ⟨.directive d, ⟨pos, pos + utf8Length body⟩⟩ ::
        (scanFrom (pos + utf8Length body) rest).segments := by
  obtain ⟨inner, rfl, -⟩ := h.cons
  rw [List.cons_append, scanFrom, if_pos rfl]
  split
  · rename_i r hread
    rw [h.read] at hread
    cases hread
    rfl
  · rename_i defect hread
    rw [h.read] at hread
    cases hread

theorem segments_of_written {text : String} {d : Directive} (h : d.Written 0 text.toList) :
    (ofString text).segments = [⟨.directive d, ⟨0, utf8Length text.toList⟩⟩] := by
  have hscan := scanFrom_of_written h []
  rwa [List.append_nil, scanFrom, Nat.zero_add] at hscan

/-- Literal text without directives is one segment, up to the end of the text or the next directive. -/
theorem scanFrom_of_absent {pos : Nat} {part rest : List Char} (hne : part ≠ [])
    (h : Absent part) (hrest : ∀ x ∈ rest.head?, x = '$')
    (hnext : ∀ s ∈ (scanFrom (pos + utf8Length part) rest).segments.head?,
      s.node.isLiteral = false) : (scanFrom pos (part ++ rest)).segments =
      ⟨.literal (String.ofList part), ⟨pos, pos + utf8Length part⟩⟩ ::
        (scanFrom (pos + utf8Length part) rest).segments := by
  induction part generalizing pos with
  | nil => exact absurd rfl hne
  | cons c part ih =>
    have hstart : ¬ Starts (c :: (part ++ rest)) := fun hs => h.1 (Starts.of_append hs hrest)
    rw [List.cons_append, scanFrom_cons_of_not_starts pos hstart]
    cases part with
    | nil =>
      have hlength : utf8Length [c] = c.utf8Size := rfl
      rw [hlength] at hnext ⊢
      rw [List.nil_append]
      cases hsegments : (scanFrom (pos + c.utf8Size) rest).segments with
      | nil => rfl
      | cons s segments =>
        rw [hsegments] at hnext
        obtain ⟨node, span⟩ := s
        cases node with
        | literal t => cases hnext _ rfl
        | directive d => rfl
    | cons b part =>
      rw [utf8Length_cons, ← Nat.add_assoc] at hnext ⊢
      rw [ih (List.cons_ne_nil b part) h.2 hnext, Segment.push]
      have hcons : String.singleton c ++ String.ofList (b :: part) =
          String.ofList (c :: b :: part) := (@String.ofList_append [c] (b :: part)).symm
      rw [hcons]

end Template

namespace Segment
open Directive

/-- Whether a segment is a directive or literal text without directives. -/
def Plain : Segment → Prop
  | literal t => Absent t.toList
  | directive _ => True

theorem plain_ofList {part : List Char} : (literal (String.ofList part)).Plain ↔ Absent part := by
  rw [Plain, String.toList_ofList]

section Tiles
variable {pos : Nat} {cs : List Char} {segments : List (Spanned Segment)}

theorem Tiles.head?_eq (h : Tiles pos cs segments)
    (hnext : ∀ s ∈ segments.head?, s.node.isLiteral = false) : ∀ x ∈ cs.head?, x = '$' := by
  cases h with
  | nil => exact nofun
  | cons hreads _ _ =>
    have hliteral := hnext _ rfl
    cases hreads with
    | literal _ => cases hliteral
    | directive hwritten =>
      obtain ⟨inner, rfl, -⟩ := hwritten.cons
      rintro _ ⟨⟩
      rfl

/-- There is no other division of a text into segments whose literal texts are free of directives. -/
theorem Tiles.eq_scanFrom (h : Tiles pos cs segments) (hplain : ∀ s ∈ segments, s.node.Plain) :
    segments = (Template.scanFrom pos cs).segments := by
  induction h with
  | nil =>
    rw [Template.scanFrom]
  | @cons pos part rest segment segments hreads hapart hrest ih =>
    have hsegments := ih fun s hs => hplain s (List.mem_cons_of_mem _ hs)
    cases hreads with
    | directive hwritten => rw [Template.scanFrom_of_written hwritten, ← hsegments]
    | literal hne =>
      have hnext : ∀ s ∈ segments.head?, s.node.isLiteral = false := fun s hs =>
        Bool.eq_false_iff.2 fun hliteral => hapart s hs ⟨rfl, hliteral⟩
      have habsent : Absent part := plain_ofList.1 (hplain _ List.mem_cons_self)
      rw [Template.scanFrom_of_absent hne habsent (hrest.head?_eq hnext) (hsegments ▸ hnext),
        ← hsegments]

theorem plain_singleton {c : Char} (h : ¬ Starts [c]) :
    (literal (String.singleton c)).Plain := by
  rw [Plain, String.toList_singleton]
  exact ⟨h, trivial⟩

theorem plain_push {c : Char} (h : Tiles (pos + c.utf8Size) cs segments)
    (hplain : ∀ s ∈ segments, s.node.Plain) (hc : ¬ Starts (c :: cs)) :
    ∀ s ∈ push pos c segments, s.node.Plain := by
  have hsingle : ¬ Starts [c] := fun hs => hc (hs.append cs)
  cases h with
  | nil =>
    intro s hs
    rw [List.mem_singleton.1 hs]
    exact plain_singleton hsingle
  | @cons _ part rest segment segments hreads _ _ =>
    cases hreads with
    | literal hne =>
      refine List.forall_mem_cons.2 ⟨?_, fun s hs => hplain s (List.mem_cons_of_mem _ hs)⟩
      have habsent : Absent part := plain_ofList.1 (hplain _ List.mem_cons_self)
      rw [Plain, String.toList_append, String.toList_singleton, String.toList_ofList]
      exact ⟨fun hs => hc (Starts.append hs rest), habsent⟩
    | directive hwritten => exact List.forall_mem_cons.2 ⟨plain_singleton hsingle, hplain⟩

end Tiles

/-- No directive is written in the literal text that reading leaves. -/
theorem plain_scanFrom (pos : Nat) (cs : List Char) :
    ∀ s ∈ (Template.scanFrom pos cs).segments, s.node.Plain := by
  fun_induction Template.scanFrom pos cs with
  | case1 pos => exact List.forall_mem_nil _
  | case2 pos rest r hread tail ih => exact List.forall_mem_cons.2 ⟨trivial, ih⟩
  | case3 pos rest defect hread tail ih =>
    refine plain_push (tiles_scanFrom _ rest) ih fun hs => ?_
    obtain ⟨-, r, hr⟩ := (starts_cons_iff pos).1 hs
    rw [hread] at hr
    cases hr
  | case4 pos c rest hc tail ih =>
    exact plain_push (tiles_scanFrom _ rest) ih fun hs => hc ((starts_cons_iff pos).1 hs).1

end Segment

/-! ## Written forms -/

theorem Endpoint.isSpelledBy_text (e : Endpoint) : e.keyword.isSpelledBy e.text.toList = true := by
  rw [text, Keyword.text, String.toList_ofList]
  exact e.keyword.isSpelledBy_letters

/-- The keyword of a relationship type is an identifier and no keyword of a route. -/
theorem RelationshipType.isIdent_keyword (t : RelationshipType) :
    isIdent t.keyword.toList = true ∧ ∀ k : Keyword, k.isSpelledBy t.keyword.toList = false := by
  refine ⟨by cases t <;> decide, fun k => ?_⟩
  cases t <;> cases k <;> decide

/-- The word that a relation is written as is a word for the same relation. -/
theorem Relation.ofKeyword_text {word : List Char} (hword : isIdent word = true)
    (hkeyword : ∀ k : Keyword, k.isSpelledBy word = false) :
    let relation := ofKeyword (String.ofList word)
    isIdent relation.text.toList = true ∧
      (∀ k : Keyword, k.isSpelledBy relation.text.toList = false) ∧
      ofKeyword relation.text = relation := by
  intro relation
  cases ht : RelationshipType.ofKeyword? (String.ofList word) with
  | none =>
    have hunknown : relation = unknown (String.ofList word) := by
      show ofKeyword _ = _
      rw [ofKeyword, ht]
    rw [hunknown, text, String.toList_ofList, ← hunknown]
    exact ⟨hword, hkeyword, rfl⟩
  | some t =>
    have hknown : relation = known t := by
      show ofKeyword _ = _
      rw [ofKeyword, ht]
    obtain ⟨hident, hnone⟩ := t.isIdent_keyword
    rw [hknown, text]
    exact ⟨hident, hnone, by rw [ofKeyword, t.ofKeyword?_keyword]⟩

/-- A route is spelled by its written form. -/
theorem Route.Spelling.written {way : List Char} {route : Route} (h : Spelling way route) :
    Spelling route.text.toList route := by
  cases h with
  | current => exact .current
  | @along _ k hk =>
    rw [text, Keyword.text, String.toList_ofList]
    exact .along k.isSpelledBy_letters
  | @related word ending e hword hkeyword hend =>
    obtain ⟨hident, hnone, hsame⟩ := Relation.ofKeyword_text hword hkeyword
    have hspelled := Route.Spelling.related hident hnone e.isSpelledBy_text
    rw [String.ofList_toList, hsame] at hspelled
    simpa [text] using hspelled

/-- An attribute has one spelling only, its written form. -/
theorem Attribute.Spelling.eq_text {word : List Char} {a : Attribute} (h : Spelling word a) :
    word = a.text.toList := (text_of_ofChars? (ofChars?_eq_some_iff.2 h)).symm

theorem Directive.toList_text (d : Directive) : d.text.toList =
    '$' :: (d.route.node.text.toList ++ '\x7b' :: (d.attr.node.text.toList ++ ['\x7d'])) := by
  simp [text]

/-- The written form of a directive is a text of a directive with the same route and attribute. -/
theorem Directive.Written.written {pos : Nat} {body : List Char} {d : Directive}
    (h : Written pos body d) (other : Nat) : ∃ d', Written other d.text.toList d' ∧
      d'.route.node = d.route.node ∧ d'.attr.node = d.attr.node := by
  cases h with
  | @mk way word route attr hroute hattr =>
    have hspelled : Attribute.Spelling attr.text.toList attr := hattr.eq_text ▸ hattr
    have hwritten : Written other _ _ := .mk hroute.written hspelled
    rw [toList_text]
    exact ⟨_, hwritten, rfl, rfl⟩

/-! ## Segments and what they say -/

namespace Segment

/-- What a segment says, wherever it stands: literal text, or a route and an attribute. -/
def content : Segment → String ⊕ (Route × Attribute)
  | literal t => .inl t
  | directive d => .inr (d.route.node, d.attr.node)

/-- The written form of what a segment says. -/
def written : String ⊕ (Route × Attribute) → String
  | .inl t => t
  | .inr (route, attr) => "$" ++ route.text ++ "\x7b" ++ attr.text ++ "\x7d"

theorem text_eq (s : Segment) : s.text = written s.content := by
  cases s <;> rfl

theorem content_eq_inl {s : Segment} {t : String} : s.content = .inl t ↔ s = literal t := by
  cases s <;> simp [content]

theorem content_directive {d e : Directive} (hroute : d.route.node = e.route.node)
    (hattr : d.attr.node = e.attr.node) : (directive d).content = (directive e).content := by
  rw [content, content, hroute, hattr]

section Congr
variable {s t : Segment}

theorem isLiteral_congr (h : s.content = t.content) : s.isLiteral = t.isLiteral := by
  cases s <;> cases t <;> first | rfl | cases h

theorem plain_congr (h : s.content = t.content) (hs : s.Plain) : t.Plain := by
  cases t with
  | literal text => rwa [content_eq_inl.1 h] at hs
  | directive _ => trivial

end Congr

/-- The written form of a segment reads, at any place, as a segment that says the same. -/
theorem Reads.written {pos : Nat} {part : List Char} {s : Segment} (h : Reads pos part s)
    (other : Nat) : ∃ t, Reads other s.text.toList t ∧ t.content = s.content := by
  cases h with
  | literal hne =>
    refine ⟨_, ?_, rfl⟩
    rw [text, String.toList_ofList]
    exact .literal hne
  | directive hwritten =>
    obtain ⟨d', hwritten, hroute, hattr⟩ := hwritten.written other
    exact ⟨_, .directive hwritten, content_directive hroute hattr⟩

/-- The written form of segments is divided, at any place, into segments that say the same. -/
theorem Tiles.written {pos : Nat} {cs : List Char} {segments : List (Spanned Segment)}
    (h : Tiles pos cs segments) (other : Nat) :
    ∃ others, Tiles other (String.join (segments.map (·.node.text))).toList others ∧
      others.map (·.node.content) = segments.map (·.node.content) := by
  induction h generalizing other with
  | nil => exact ⟨[], .nil, rfl⟩
  | @cons pos part rest segment segments hreads hapart _ ih =>
    obtain ⟨t, ht, hsame⟩ := hreads.written other
    obtain ⟨others, hothers, hcontents⟩ := ih (other + utf8Length segment.text.toList)
    have hnext : ∀ next ∈ others.head?, ¬ (t.isLiteral = true ∧ next.node.isLiteral = true) := by
      intro next hmem
      cases others with
      | nil => cases hmem
      | cons o others =>
        cases hmem
        obtain ⟨s, segments, rfl, hs, -⟩ := List.map_eq_cons_iff.1 hcontents.symm
        rw [isLiteral_congr hsame, isLiteral_congr hs.symm]
        exact hapart s rfl
    have hcons := Tiles.cons ht hnext hothers
    rw [← String.toList_append, ← String.join_cons] at hcons
    exact ⟨_, hcons, by rw [List.map_cons, List.map_cons, hsame, hcontents]⟩

end Segment

/-! ## The property -/

namespace Template

theorem text_congr {t u : Template}
    (h : t.segments.map (·.node.content) = u.segments.map (·.node.content)) : t.text = u.text := by
  have htext (w : Template) :
      w.text = String.join ((w.segments.map (·.node.content)).map Segment.written) := by
    rw [text, List.map_map]
    exact congrArg String.join (List.map_congr_left fun s _ => s.node.text_eq)
  rw [htext, htext, h]

/-- The written form of a template is read as the same template, and is its own written form. -/
theorem written_form_normal (text : String) :
    let t := ofString text
    (ofString t.text).segments.map (·.node.content) = t.segments.map (·.node.content) ∧
      (ofString t.text).text = t.text := by
  intro t
  have htiles := Segment.tiles_scanFrom 0 text.toList
  obtain ⟨others, hothers, hcontents⟩ := htiles.written 0
  have hplain : ∀ s ∈ others, s.node.Plain := by
    intro s hs
    have hmem : s.node.content ∈ t.segments.map (·.node.content) :=
      hcontents ▸ List.mem_map_of_mem hs
    obtain ⟨s', hs', hsame⟩ := List.mem_map.1 hmem
    exact Segment.plain_congr hsame (Segment.plain_scanFrom 0 text.toList s' hs')
  have hsame : (ofString t.text).segments.map (·.node.content) =
      t.segments.map (·.node.content) := by
    rw [hothers.eq_scanFrom hplain] at hcontents
    exact hcontents
  exact ⟨hsame, text_congr hsame⟩

/-- A keyword comes back in lower case, and a dollar sign that starts nothing stays where it is. -/
example : (ofString "$5 $\u017fOURCE\x7bname\x7d").text = "$5 $source\x7bname\x7d" := by
  decide +kernel

end Template

end ModelLabels
