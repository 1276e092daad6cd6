import ModelLabels.Proofs.References
import ModelLabels.Proofs.Rendering
/-! # Texts that are written and read

A name or a documentation is written to the object that describes another one, and read from the object
that the other one speaks for.  The two are the same but for connections that draw a relationship: what
is written to such a connection stays with it, and what is read of it is read from its relationship.

* `CaptionPart`: a text that is written and read.
* `Model.speaksFor`: the object that another one speaks for; `Consistent.subject_eq`.
* `Model.describedBy_eq`, `apply_of_revise`: where a text is written.
* `Consistent.renderAttribute_update`: what is read afterwards.
* `Model.CaptionWritten`: what writing does to labels; `Reachable.caption_written`: the property.
-/

namespace ModelLabels
set_option autoImplicit false

/-- A text that captions consist of. -/
inductive CaptionPart where
  | name
  | documentation

namespace CaptionPart

def set (v : String) : CaptionPart → Caption → Caption
  | name, c => { c with name := v }
  | documentation, c => { c with documentation := v }

/-- The attribute that reads the text. -/
def reader : CaptionPart → Attribute
  | name => .name
  | documentation => .documentation

def write (k : Key) (v : String) : CaptionPart → Operation
  | name => .setName k v
  | documentation => .setDocumentation k v

def requirement : CaptionPart → Requirement
  | name => .nameable
  | documentation => .documentable

/-- The template that asks for the text of its root. -/
def template : CaptionPart → String
  | name => "$\x7bname\x7d"
  | documentation => "$\x7bdocumentation\x7d"

theorem filled_template (part : CaptionPart) : ∃ d : Directive,
    d.route.node = .current ∧ d.attr.node = part.reader ∧ ∀ value : Directive → String,
      Segment.filled value (Template.ofString part.template).segments = value d := by
  cases part with
  | name =>
    have hname : Attribute.Spelling ['n', 'a', 'm', 'e'] .name :=
      Attribute.ofChars?_eq_some_iff.1 (by decide)
    have hwritten : Directive.Written 0 name.template.toList _ := .mk .current hname
    exact ⟨_, rfl, rfl, Segment.filled_of_written hwritten⟩
  | documentation =>
    have hdocumentation : Attribute.Spelling
        ['d', 'o', 'c', 'u', 'm', 'e', 'n', 't', 'a', 't', 'i', 'o', 'n'] .documentation :=
      Attribute.ofChars?_eq_some_iff.1 (by decide)
    have hwritten : Directive.Written 0 documentation.template.toList _ := .mk .current hdocumentation
    exact ⟨_, rfl, rfl, Segment.filled_of_written hwritten⟩

end CaptionPart

/-! ## Bodies -/

namespace Body

/-- Whether an object with this body speaks for itself. -/
def speaksForItself : Body → Bool
  | diagramObject d => d.shows.subject?.isNone
  | connection c => c.relationship.isNone
  | folder _ | concept _ | view _ => true

/-- The object that one with this body under key `k` speaks for. -/
def speaksFor (k : Key) : Body → Key
  | diagramObject d => d.shows.subject?.getD k
  | connection c => c.relationship.getD k
  | folder _ | concept _ | view _ => k

theorem speaksFor_of_itself {b : Body} (h : b.speaksForItself = true) (k : Key) :
    b.speaksFor k = k := by
  cases b with
  | diagramObject d => exact congrArg (Option.getD · k) (Option.isNone_iff_eq_none.1 h)
  | connection c => exact congrArg (Option.getD · k) (Option.isNone_iff_eq_none.1 h)
  | folder _ => rfl
  | concept _ => rfl
  | view _ => rfl

theorem speaksFor_of_mapCaption? {b b' : Body} {f : Caption → Caption}
    (hb : b.mapCaption? f = some b') (k : Key) : b'.speaksFor k = b.speaksFor k := by
  cases b with
  | diagramObject d =>
    obtain ⟨shows, view⟩ := d
    cases shows <;> cases hb
    rfl
  | connection c => cases hb; rfl
  | folder f => cases hb; rfl
  | concept c => cases hb; rfl
  | view v => cases hb; rfl

theorem mapCaption?_eq_none {b : Body} {f : Caption → Caption} (hself : b.speaksForItself = true)
    (hb : b.mapCaption? f = none) : ∃ content view, b = .diagramObject ⟨.note content, view⟩ := by
  cases b with
  | diagramObject d =>
    obtain ⟨shows, view⟩ := d
    cases shows with
    | note content => exact ⟨content, view, rfl⟩
    | group c => cases hb
    | element e => cases hself
    | reference v => cases hself
  | connection c => cases hb
  | folder f => cases hb
  | concept c => cases hb
  | view v => cases hb

end Body

/-! ## Subjects -/

namespace Subject

theorem ofBody?_connection (m : Model) {c : Connection} (h : c.relationship = none) :
    ofBody? m (.connection c) = some (captioned "Connection" c.toCaption) := by
  rw [ofBody?, h]
  rfl

theorem ofBody?_congr {b : Body} (h : b.speaksForItself = true) (m n : Model) :
    ofBody? n b = ofBody? m b := by
  cases b with
  | diagramObject d =>
    obtain ⟨shows, view⟩ := d
    cases shows with
    | element e => cases h
    | reference v => cases h
    | note c => rfl
    | group c => rfl
  | connection c =>
    have hnone : c.relationship = none := Option.isNone_iff_eq_none.1 h
    rw [ofBody?_connection m hnone, ofBody?_connection n hnone]
  | folder f => rfl
  | concept c => rfl
  | view v => rfl

/-- A caption that is changed is read as it was changed, and nothing else is read in another way. -/
theorem ofBody?_of_mapCaption? {b b' : Body} {f : Caption → Caption} (h : b.speaksForItself = true)
    (hb : b.mapCaption? f = some b') (m n : Model) : ∃ s c, s.caption? = some c ∧
      ofBody? m b = some s ∧ ofBody? n b' = some { s with caption? := some (f c) } := by
  cases b with
  | diagramObject d =>
    obtain ⟨shows, view⟩ := d
    cases shows with
    | group c => cases hb; exact ⟨_, c, rfl, rfl, rfl⟩
    | note c => cases hb
    | element e => cases h
    | reference v => cases h
  | connection c =>
    have hnone : c.relationship = none := Option.isNone_iff_eq_none.1 h
    cases hb
    exact ⟨_, c.toCaption, rfl, ofBody?_connection m hnone, ofBody?_connection n hnone⟩
  | folder f => cases hb; exact ⟨_, f.toCaption, rfl, rfl, rfl⟩
  | concept c => cases hb; exact ⟨_, c.toCaption, rfl, rfl, rfl⟩
  | view v => cases hb; exact ⟨_, v.toCaption, rfl, rfl, rfl⟩

theorem exists_note {m : Model} {b : Body} {s : Subject} (h : ofBody? m b = some s)
    (hs : s.caption? = none) : ∃ content view, b = .diagramObject ⟨.note content, view⟩ := by
  cases b with
  | diagramObject d =>
    obtain ⟨shows, view⟩ := d
    cases shows with
    | note content => exact ⟨content, view, rfl⟩
    | group c => cases h; cases hs
    | element e =>
      obtain ⟨c, -, rfl⟩ := Option.map_eq_some_iff.1 h
      cases hs
    | reference v =>
      obtain ⟨f, -, rfl⟩ := Option.map_eq_some_iff.1 h
      cases hs
  | connection c =>
    rw [ofBody?] at h
    split at h <;> cases h <;> cases hs
  | folder f => cases h; cases hs
  | concept c => cases h; cases hs
  | view v => cases h; cases hs

end Subject

theorem attributeText?_congr {m n : Model} {target : Target}
    (h : ownId? n target = ownId? m target) (s : Subject) (attr : Attribute) :
    attributeText? n target s attr = attributeText? m target s attr := by
  cases attr <;> first | rfl | exact h

theorem attributeText?_set (m : Model) (target : Target) {s : Subject} {c : Caption}
    (hc : s.caption? = some c) (part : CaptionPart) (v : String) (attr : Attribute) :
    attributeText? m target { s with caption? := some (part.set v c) } attr =
      if attr = part.reader then some v else attributeText? m target s attr := by
  cases part <;> cases attr <;> simp [attributeText?, CaptionPart.set, CaptionPart.reader, hc]

/-- A body in place of another one, such that one attribute is read as another text. -/
structure Body.Rewritten (b : Body) (reader : Attribute) (v : String) (b' : Body) : Prop where
  speaksFor : ∀ k, b'.speaksFor k = b.speaksFor k
  subject : b.speaksForItself = true → ∀ m n : Model, ∃ s s',
    Subject.ofBody? m b = some s ∧ Subject.ofBody? n b' = some s' ∧
      ∀ target attr, attributeText? m target s' attr =
        if attr = reader then some v else attributeText? m target s attr

theorem Body.rewritten_of_mapCaption? {b b' : Body} {part : CaptionPart} {v : String}
    (hb : b.mapCaption? (part.set v) = some b') : b.Rewritten part.reader v b' where
  speaksFor := speaksFor_of_mapCaption? hb
  subject hself m n := by
    obtain ⟨s, c, hc, hs, hs'⟩ := Subject.ofBody?_of_mapCaption? hself hb m n
    exact ⟨s, _, hs, hs', fun target => attributeText?_set m target hc part v⟩

theorem Directive.value_current {d : Directive} (h : d.route.node = .current) (m : Model)
    (root : Target) : d.value m root = renderAttribute m root d.attr.node := by
  rw [value, h]
  rfl

namespace Model
variable {m n : Model} {k t x : Key} {o : Object} {b : Body} {part : CaptionPart} {v : String}

/-! ## What is read -/

/-- The object that another one speaks for. -/
def speaksFor (m : Model) (k : Key) : Key := ((m.get? k).map (·.body.speaksFor k)).getD k

def drawnRelationship? (m : Model) (k : Key) : Option Key := (m.connection? k).bind (·.relationship)

def IsNote (m : Model) (k : Key) : Prop :=
  ∃ o content view, m.get? k = some o ∧ o.body = .diagramObject ⟨.note content, view⟩

theorem speaksFor_of_get? (ho : m.get? k = some o) : m.speaksFor k = o.body.speaksFor k := by
  rw [speaksFor, ho]
  rfl

/-- The object that another one speaks for is there and speaks for itself, and the subject of the other
one is its subject. -/
theorem Consistent.subject_eq (h : m.Consistent) (ho : m.get? x = some o) :
    ∃ o', m.get? (m.speaksFor x) = some o' ∧ o'.body.speaksForItself = true ∧
      Subject.of? m (.object x) = Subject.ofBody? m o'.body := by
  have hof : Subject.of? m (.object x) = Subject.ofBody? m o.body := by
    rw [Subject.of?, ho, Option.bind_some]
  have hspeaks := speaksFor_of_get? ho
  have hself (hb : o.body.speaksForItself = true) :
      ∃ o', m.get? (m.speaksFor x) = some o' ∧ o'.body.speaksForItself = true ∧
        Subject.of? m (.object x) = Subject.ofBody? m o'.body :=
    ⟨o, by rwa [hspeaks, Body.speaksFor_of_itself hb], hb, hof⟩
  have hother {k : Key} {o' : Object} (hk : o.body.speaksFor x = k) (ho' : m.get? k = some o')
      (hb : o'.body.speaksForItself = true)
      (heq : Subject.ofBody? m o.body = Subject.ofBody? m o'.body) :
      ∃ o', m.get? (m.speaksFor x) = some o' ∧ o'.body.speaksForItself = true ∧
        Subject.of? m (.object x) = Subject.ofBody? m o'.body :=
    ⟨o', by rwa [hspeaks, hk], hb, hof.trans heq⟩
  have hres := h.resolved ho
  obtain ⟨id, owner, body⟩ := o
  cases body with
  | folder f => exact hself rfl
  | concept c => exact hself rfl
  | view v => exact hself rfl
  | diagramObject d =>
    obtain ⟨shows, view⟩ := d
    obtain ⟨-, -, helement, hreference⟩ := hres
    cases shows with
    | note c => exact hself rfl
    | group c => exact hself rfl
    | element e =>
      obtain ⟨c, hc, -⟩ := helement e rfl
      obtain ⟨_, _, he⟩ := get?_of_concept? hc
      refine hother rfl he rfl ?_
      show (m.concept? e).map Subject.ofConcept = _
      rw [hc]
      rfl
    | reference w =>
      obtain ⟨f, hf⟩ := Option.isSome_iff_exists.1 (hreference w rfl)
      obtain ⟨_, _, hw⟩ := get?_of_view? hf
      refine hother rfl hw rfl ?_
      show (m.view? w).map Subject.ofView = _
      rw [hf]
      rfl
  | connection c =>
    cases hr : c.relationship with
    | none => exact hself (by rw [Body.speaksForItself, hr]; rfl)
    | some r =>
      obtain ⟨-, -, -, hrelationship⟩ := hres
      obtain ⟨e, hc, -⟩ := hrelationship r hr
      obtain ⟨_, _, he⟩ := get?_of_concept? hc
      refine hother (by rw [Body.speaksFor, hr]; rfl) he rfl ?_
      simp only [Subject.ofBody?, hr, Option.bind_some, hc]

/-! ## What is written -/

/-- What an object is described by is what it speaks for, but for connections that draw a relationship:
they are described by themselves. -/
theorem describedBy_eq (ho : m.get? k = some o) :
    m.describedBy k = .ok (if m.drawnRelationship? k = none then m.speaksFor k else k) := by
  have hspeaks := speaksFor_of_get? ho
  have hconnection := connection?_of_get? ho
  have hrequire : m.require k = .ok o := by rw [require, ho]
  rw [describedBy, hrequire, drawnRelationship?, hconnection, hspeaks]
  obtain ⟨id, owner, body⟩ := o
  cases body with
  | connection c =>
    cases hr : c.relationship with
    | none => simp [Body.speaksFor, Body.connection?, hr]
    | some r => simp [Body.connection?, hr]
  | diagramObject d => rfl
  | folder f => rfl
  | concept c => rfl
  | view w => rfl

theorem apply_of_revise {op : Operation} {expected : Requirement} {change? : Body → Option Body}
    (hop : op.run = (fun _ => .done) <$> (do
      let owner ← Edit.check (·.describedBy k)
      Edit.revise owner expected change? : Edit Unit))
    (ht : m.describedBy k = .ok t) (ho : m.get? t = some o) :
    m.apply op = match change? o.body with
      | some b => (.ok .done, m.update t fun o => { o with body := b })
      | none => (.error (.wrongKind o.id expected), m) := by
  rw [apply, hop, Edit.map_apply, Edit.bind_apply, Edit.check_apply, ht]
  dsimp only
  rw [Edit.revise_apply, requirePart, ho]
  dsimp only
  cases change? o.body <;> rfl

theorem apply_write (ht : m.describedBy k = .ok t) (ho : m.get? t = some o) (part : CaptionPart)
    (v : String) :
    m.apply (part.write k v) = match o.body.mapCaption? (part.set v) with
      | some b => (.ok .done, m.update t fun o => { o with body := b })
      | none => (.error (.wrongKind o.id part.requirement), m) := by
  cases part with
  | name => exact apply_of_revise rfl ht ho
  | documentation => exact apply_of_revise rfl ht ho

/-! ## What is read after writing -/

theorem contains_update (m : Model) (t : Key) (f : Object → Object) (x : Key) :
    (m.update t f).contains x = m.contains x := by
  show ((m.update t f).get? x).isSome = (m.get? x).isSome
  rw [get?_update]
  split
  · exact Option.isSome_map
  · rfl

theorem ownId?_update (m : Model) (t : Key) (b : Body) (target : Target) :
    ownId? (m.update t fun o => { o with body := b }) target = ownId? m target := by
  cases target with
  | model => rfl
  | object x =>
    rw [ownId?, ownId?, get?_update]
    split
    · cases m.get? x <;> rfl
    · rfl

theorem speaksFor_update (ho : m.get? t = some o) (hb : ∀ k, b.speaksFor k = o.body.speaksFor k)
    (x : Key) :
    (m.update t fun o => { o with body := b }).speaksFor x = m.speaksFor x := by
  rw [speaksFor, speaksFor, get?_update_of_get? ho]
  split
  · rename_i hx
    subst hx
    rw [ho]
    exact hb x
  · rfl

/-- A text that is written to an object is read of all that speak for the object, and nothing else is
read in another way. -/
theorem Consistent.renderAttribute_update (h : m.Consistent) (ho : m.get? t = some o)
    {reader : Attribute} (hb : o.body.Rewritten reader v b)
    (hn : (m.update t fun o => { o with body := b }).Consistent) (hx : m.contains x = true)
    (attr : Attribute) :
    renderAttribute (m.update t fun o => { o with body := b }) (.object x) attr =
      if attr = reader ∧ m.speaksFor x = t then v else renderAttribute m (.object x) attr := by
  have hget := get?_update_of_get? ho fun o => { o with body := b }
  have hspeaks := speaksFor_update ho hb.speaksFor x
  have hown := ownId?_update m t b (.object x)
  have hcontains := contains_update m t (fun o => { o with body := b }) x
  -- All that is used of the changed model has been said.
  generalize m.update t (fun o => { o with body := b }) = n at hget hspeaks hown hcontains hn ⊢
  obtain ⟨p, hp⟩ := contains_iff_get?.1 hx
  obtain ⟨p', hp', hself, hsubject⟩ := h.subject_eq hp
  obtain ⟨q, hq⟩ := contains_iff_get?.1 (hcontains.trans hx)
  obtain ⟨q', hq', -, hsubject'⟩ := hn.subject_eq hq
  rw [hspeaks, hget] at hq'
  unfold renderAttribute
  rw [hsubject, hsubject']
  by_cases ht : m.speaksFor x = t
  · rw [if_pos ht] at hq'
    cases hq'
    rw [ht, ho] at hp'
    cases hp'
    obtain ⟨s, s', hs, hs', htext⟩ := hb.subject hself m n
    rw [hs, hs', Option.bind_some, Option.bind_some, attributeText?_congr hown, htext]
    by_cases hattr : attr = reader
    · rw [if_pos hattr, if_pos ⟨hattr, ht⟩]
      rfl
    · rw [if_neg hattr, if_neg fun hboth => hattr hboth.1]
  · rw [if_neg ht, hp'] at hq'
    cases hq'
    rw [if_neg fun hboth => ht hboth.2, Subject.ofBody?_congr hself m n]
    congr 2
    funext s
    exact attributeText?_congr hown s attr

/-! ## The property -/

/-- A text that is written to an object is the label of all that speak for the same as the object, if it
does not draw a relationship.  No other label changes; for an object that draws a relationship, none. -/
structure CaptionWritten (m : Model) (part : CaptionPart) (k : Key) (v : String) (n : Model) :
    Prop where
  attributes : ∀ x, m.contains x = true → ∀ attr, renderAttribute n (.object x) attr =
    if m.drawnRelationship? k = none ∧ attr = part.reader ∧ m.speaksFor x = m.speaksFor k then v
    else renderAttribute m (.object x) attr
  rendered : m.drawnRelationship? k = none → ∀ r : Renderer, r.Serves n →
    (Renderer.render n (.object k) part.template r).1 = v

theorem Consistent.speaksFor_ne (h : m.Consistent) {r : Key} (hr : m.drawnRelationship? k = some r)
    (hx : m.contains x = true) : m.speaksFor x ≠ k := by
  rintro rfl
  obtain ⟨o, ho⟩ := contains_iff_get?.1 hx
  obtain ⟨⟨id, owner, body⟩, ho', hself, -⟩ := h.subject_eq ho
  obtain ⟨c, hc, hcr⟩ := Option.bind_eq_some_iff.1 hr
  rw [connection?_of_get? ho'] at hc
  cases body <;> cases hc
  rw [Body.speaksForItself, hcr] at hself
  cases hself

theorem exists_connection_of_drawn (ho : m.get? k = some o) (hd : m.drawnRelationship? k ≠ none) :
    ∃ c, o.body = .connection c := by
  rw [drawnRelationship?, connection?_of_get? ho] at hd
  obtain ⟨id, owner, body⟩ := o
  cases body with
  | connection c => exact ⟨c, rfl⟩
  | _ => exact absurd rfl hd

/-- Where a text is written is there, and has no such text only if it is written through a note. -/
theorem Consistent.exists_described (h : m.Consistent) (hk : m.contains k = true)
    (f : Caption → Caption) : ∃ t o, m.describedBy k = .ok t ∧ m.get? t = some o ∧
      (o.body.mapCaption? f = none ↔ m.IsNote k) := by
  obtain ⟨o, ho⟩ := contains_iff_get?.1 hk
  have hdescribed := describedBy_eq ho
  by_cases hd : m.drawnRelationship? k = none
  · -- The text goes to what the object speaks for, which is a note only if the object itself is one.
    rw [if_pos hd] at hdescribed
    obtain ⟨o', ho', hself, hsubject⟩ := h.subject_eq ho
    refine ⟨_, o', hdescribed, ho', fun hnone => ?_, ?_⟩
    · obtain ⟨content, view, hbody⟩ := Body.mapCaption?_eq_none hself hnone
      rw [Subject.of?, ho, Option.bind_some, hbody] at hsubject
      obtain ⟨content', view', hnote⟩ := Subject.exists_note hsubject rfl
      exact ⟨o, content', view', ho, hnote⟩
    · rintro ⟨p, content, view, hp, hbody⟩
      cases hp.symm.trans ho
      rw [speaksFor_of_get? ho, hbody] at ho'
      cases ho'.symm.trans ho
      rw [hbody]
      rfl
  · rw [if_neg hd] at hdescribed
    obtain ⟨c, hc⟩ := exists_connection_of_drawn ho hd
    refine ⟨k, o, hdescribed, ho, ?_, ?_⟩
    · rw [hc]
      nofun
    · rintro ⟨p, content, view, hp, hbody⟩
      cases hp.symm.trans ho
      cases hc.symm.trans hbody

theorem Consistent.captionWritten_update (h : m.Consistent) (hk : m.contains k = true)
    (ht : m.describedBy k = .ok t) (ho : m.get? t = some o)
    (hb : o.body.mapCaption? (part.set v) = some b)
    (hn : (m.update t fun o => { o with body := b }).Consistent) :
    m.CaptionWritten part k v (m.update t fun o => { o with body := b }) := by
  have hupdate {x : Key} (hx : m.contains x = true) :=
    h.renderAttribute_update ho (Body.rewritten_of_mapCaption? hb) hn hx
  obtain ⟨p, hp⟩ := contains_iff_get?.1 hk
  have hdescribed := ht.symm.trans (describedBy_eq hp)
  refine ⟨fun x hx attr => ?_, fun hd r hr => ?_⟩
  · rw [hupdate hx]
    cases hd : m.drawnRelationship? k with
    | none =>
      rw [if_pos hd] at hdescribed
      cases hdescribed
      simp
    | some r =>
      rw [hd, if_neg (by simp)] at hdescribed
      cases hdescribed
      rw [if_neg fun hboth => h.speaksFor_ne hd hx hboth.2, if_neg (by simp)]
  · rw [if_pos hd] at hdescribed
    cases hdescribed
    obtain ⟨d, hcurrent, hreader, hfilled⟩ := part.filled_template
    have hroot : (m.update (m.speaksFor k) fun o => { o with body := b }).hasTarget (.object k) = true :=
      (contains_update _ _ _ _).trans hk
    rw [hr.render_fst hroot, hfilled, Directive.value_current hcurrent, hreader, hupdate hk]
    exact if_pos ⟨rfl, rfl⟩

/-- In every reachable model a text can be written to all objects but notes.  It is then the label of the
object it was written to and of all that stand for the same, unless the object is a connection that draws
a relationship; no other label changes. -/
theorem Reachable.caption_written (h : m.Reachable) (hk : m.contains k = true) (part : CaptionPart)
    (v : String) :
    let written := m.apply (part.write k v)
    (written.1 = .ok .done ↔ ¬ m.IsNote k) ∧
      (written.1 = .ok .done → m.CaptionWritten part k v written.2) := by
  intro written
  have hm := h.sound.toConsistent
  have hn : written.2.Consistent := (Reachable.step h (.apply _)).sound.toConsistent
  obtain ⟨t, o, ht, ho, hnote⟩ := hm.exists_described hk (part.set v)
  have hwritten : written = _ := apply_write ht ho part v
  generalize written = answered at hn hwritten ⊢
  cases hb : o.body.mapCaption? (part.set v) with
  | none =>
    rw [hb] at hwritten
    subst hwritten
    exact ⟨⟨fun hok => (by cases hok), fun hk => absurd (hnote.1 hb) hk⟩, fun hok => (by cases hok)⟩
  | some b =>
    rw [hb] at hwritten
    subst hwritten
    refine ⟨⟨fun _ hk => ?_, fun _ => rfl⟩, fun _ => hm.captionWritten_update hk ht ho hb hn⟩
    rw [hnote.2 hk] at hb
    cases hb

/-- An element that is named through the box that shows it. -/
theorem caption_written_shown :
    let plan := new 1 "Plan"
    let actor := plan.nextKey
    let drafted := (plan.apply (.addElement .businessActor "Buyer")).2
    let view := drafted.nextKey
    let drawn := (drafted.apply (.addView "Main")).2
    let box := drawn.nextKey
    let m := (drawn.apply (.addElementObject view actor)).2
    let written := m.apply (.setName box "Customer")
    let r := Renderer.new .default
    m.Reachable ∧ m.contains box = true ∧ written.1 = .ok .done ∧
      renderAttribute written.2 (.object actor) .name = "Customer" ∧ r.Serves written.2 ∧
      (Renderer.render written.2 (.object box) CaptionPart.name.template r).1 = "Customer" := by
  intro plan actor drafted view drawn box m written r
  have hm : m.Reachable := .step (.step (.step (.new 1 "Plan") (.apply _)) (.apply _)) (.apply _)
  have hbox : m.contains box = true := by decide
  have hactor : m.contains actor = true := by decide
  have hnote : ¬ m.IsNote box := by
    rintro ⟨o, content, drawing, ho, hb⟩
    have hbody : (m.get? box).map (·.body) = some (.diagramObject ⟨.element actor, view⟩) := by
      decide +kernel
    rw [ho, Option.map_some, hb] at hbody
    cases hbody
  have hr : r.Serves written.2 := Renderer.serves_new written.2 .default
  obtain ⟨hanswer, hwritten⟩ := hm.caption_written hbox .name "Customer"
  have hdone := hanswer.2 hnote
  obtain ⟨hattributes, hrendered⟩ := hwritten hdone
  have hplain : m.drawnRelationship? box = none := by decide
  refine ⟨hm, hbox, hdone, (hattributes actor hactor .name).trans (if_pos ?_), hr, hrendered hplain r hr⟩
  exact ⟨hplain, rfl, by decide⟩

/-- A connection that draws a relationship is named, and still has no label. -/
theorem caption_not_read_drawn :
    let plan := new 1 "Plan"
    let actor := plan.nextKey
    let m₁ := (plan.apply (.addElement .businessActor "Buyer")).2
    let role := m₁.nextKey
    let m₂ := (m₁.apply (.addElement .businessRole "Client")).2
    let assignment := m₂.nextKey
    let m₃ := (m₂.apply (.addRelationship .assignment actor role)).2
    let view := m₃.nextKey
    let m₄ := (m₃.apply (.addView "Main")).2
    let source := m₄.nextKey
    let m₅ := (m₄.apply (.addElementObject view actor)).2
    let target := m₅.nextKey
    let m₆ := (m₅.apply (.addElementObject view role)).2
    let line := m₆.nextKey
    let m := (m₆.apply (.addRelationshipConnection assignment source target)).2
    let written := m.apply (.setName line "Signs")
    m.Reachable ∧ m.contains line = true ∧ written.1 = .ok .done ∧
      (Renderer.render written.2 (.object line) CaptionPart.name.template (.new .default)).1 ≠
        "Signs" := by
  intro plan actor m₁ role m₂ assignment m₃ view m₄ source m₅ target m₆ line m written
  have hm : m.Reachable := .step (.step (.step (.step (.step (.step (.step (.new 1 "Plan")
    (.apply _)) (.apply _)) (.apply _)) (.apply _)) (.apply _)) (.apply _)) (.apply _)
  have hline : m.contains line = true := by decide
  have hroot : written.2.hasTarget (.object line) = true := by decide
  obtain ⟨d, hcurrent, hreader, hfilled⟩ := CaptionPart.name.filled_template
  have hr : (Renderer.new .default).Serves written.2 := Renderer.serves_new written.2 .default
  refine ⟨hm, hline, by decide, ?_⟩
  rw [hr.render_fst hroot, hfilled, Directive.value_current hcurrent, hreader]
  decide

end Model
end ModelLabels
