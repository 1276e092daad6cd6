import ModelLabels.Proofs.Commit
/-! # Effects

Whatever an operation is asked to do, when it is accepted it has one of few effects.

* `Model.Effect`: the effects, each with what the checks of its operations have made sure of.
* `Operation.effect_of_run`: all operations.
-/

namespace ModelLabels
set_option autoImplicit false

/-- What an accepted operation may do to a model, with the answer it gives. -/
inductive Model.Effect (m : Model) : Operation.Answer → Model → Prop where
  /-- The model itself gets another description. -/
  | described (d : Description) : m.Effect .done { m with toDescription := d }
  | unchanged : m.Effect .done m
  /-- Texts of an object change. -/
  | revised {k : Key} {o : Object} {b : Body} (ho : m.get? k = some o)
      (hb : b.outline = o.body.outline) :
      m.Effect .done (m.update k fun o => { o with body := b })
  | detached {k : Key} {o : Object} {c : Connection} (ho : m.get? k = some o)
      (hc : o.body = .connection c) (h : c.isConnected = true) : m.Effect .done (m.detached k)
  | reattached {k : Key} {o : Object} {c : Connection} (ho : m.get? k = some o)
      (hc : o.body = .connection c) (h : c.isConnected = false) :
      m.Effect .done (m.reattached k c)
  | renamed {k : Key} {o : Object} {id : String} (ho : m.get? k = some o) (hid : id ≠ "")
      (hne : o.id ≠ id) (hused : id ∉ m.usedIds) : m.Effect .done (m.renamed k o.id id)
  | moved {k p : Key} {o : Object} (ho : m.get? k = some o) (htop : o.isTopLevel = false)
      (hp : m.Holds p o.role) (hc : o.role.isConnection = false)
      (hw : (∃ t r, o.role = .folder t r) ∨ (∃ s v, o.role = .diagramObject s v) →
        m.isWithin p k = false) : m.Effect .done (m.moved k p)
  /-- An object goes with all that depends on it, in any order. -/
  | cleared {k : Key} {o : Object} {ks : List Key} (ho : m.get? k = some o)
      (htop : o.isTopLevel = false) (hks : ks.Perm (m.doomed k)) :
      m.Effect (.removed ks.length) (m.cleared ks)
  | added {p : Key} {b : Body} (hfit : ∀ id, m.Fits ⟨id, some p, b⟩) :
      m.Effect (.added m.nextKey) (m.added p b)

namespace Edit
variable {m n : Model} {k : Key}

theorem addFolder_effect {parent : Key} {name : String} (h : addFolder parent name m = .ok k n) :
    m.Effect (.added k) n := by
  rw [addFolder_apply] at h
  obtain ⟨a, ha, hn⟩ := commit_eq_ok.1 h
  cases hn
  refine .added fun id => ⟨trivial, ⟨_, Model.role?_of_requireFolder ha⟩, ?_⟩
  rintro t r ⟨⟩
  rfl

theorem addElementIn_effect {folder : Key} {type : ElementType} {name : String}
    (h : addElementIn folder type name m = .ok k n) : m.Effect (.added k) n := by
  rw [addElementIn_apply] at h
  obtain ⟨a, ha, hn⟩ := commit_eq_ok.1 h
  cases hn
  exact .added fun id => ⟨by simp [Model.Resolves, Role.references, Object.role, ConceptKind.ends?],
    Model.role?_of_requireAccepting ha, by simp [Object.role]⟩

theorem addRelationshipIn_effect {folder source target : Key} {type : RelationshipType}
    (h : addRelationshipIn folder type source target m = .ok k n) : m.Effect (.added k) n := by
  rw [addRelationshipIn_apply] at h
  obtain ⟨a, ha, hn⟩ := commit_eq_ok.1 h
  obtain ⟨_, hfolder, ha⟩ := bind_eq_ok.1 ha
  obtain ⟨c, hsource, htarget⟩ := bind_eq_ok.1 ha
  cases hn
  refine .added fun id => ⟨?_, Model.role?_of_requireAccepting hfolder, by simp [Object.role]⟩
  simp only [Model.Resolves, Role.references, Object.role, ConceptKind.ends?, List.mem_cons,
    List.not_mem_nil, or_false]
  rintro k (rfl | rfl)
  · exact ⟨_, Model.role?_of_requireConcept hsource⟩
  · exact ⟨_, Model.role?_of_requireConcept htarget⟩

theorem addViewIn_effect {folder : Key} {name : String} (h : addViewIn folder name m = .ok k n) :
    m.Effect (.added k) n := by
  rw [addViewIn_apply] at h
  obtain ⟨a, ha, hn⟩ := commit_eq_ok.1 h
  obtain ⟨b, hfolder, ha⟩ := bind_eq_ok.1 ha
  obtain ⟨hviews, -⟩ := ite_throw_eq_ok.1 ha
  have hrole := Model.role?_of_requireFolder hfolder
  rw [show b.2.rootType = .views by simpa [Folder.isViewFolder] using hviews] at hrole
  cases hn
  exact .added fun id => ⟨trivial, ⟨_, hrole⟩, by simp [Object.role]⟩

/-- A diagram object is added once what it shows has been found to be there. -/
theorem addDiagramObject_effect {container : Key} {shows : Shown}
    (h : addDiagramObject container shows m = .ok k n)
    (hs : ∀ v, m.Resolves (.diagramObject shows.outline v)) : m.Effect (.added k) n := by
  rw [addDiagramObject_apply] at h
  obtain ⟨a, ha, hn⟩ := commit_eq_ok.1 h
  cases hn
  exact .added fun id => ⟨hs a.2, Model.role?_of_requireContainer ha, by simp [Object.role]⟩

theorem addLine_effect {relationship : Option Key} {source target : Key}
    (h : addLine relationship source target m = .ok k n)
    (hr : ∀ s t v, m.Resolves (.connection relationship s t v)) : m.Effect (.added k) n := by
  rw [addLine_apply] at h
  obtain ⟨view, ha, hn⟩ := commit_eq_ok.1 h
  obtain ⟨a, hsource, ha⟩ := bind_eq_ok.1 ha
  obtain ⟨b, htarget, ha⟩ := bind_eq_ok.1 ha
  obtain ⟨hview, hb⟩ := ite_throw_eq_ok.1 ha
  cases hb
  cases hn
  refine .added fun id => ⟨hr source target _, ⟨rfl, ?_⟩, by simp [Object.role]⟩
  intro k hk
  simp only [List.mem_cons, List.not_mem_nil, or_false] at hk
  rcases hk with rfl | rfl
  · exact Model.role?_of_requireComponent hsource
  · exact hview ▸ Model.role?_of_requireComponent htarget

theorem addElementObject_effect {container concept : Key}
    (h : addElementObject container concept m = .ok k n) : m.Effect (.added k) n := by
  obtain ⟨a, ha, h⟩ := check_bind_eq_ok.1 h
  cases hrel : a.2.kind.isRelationship with
  | true => simp [hrel, throw_apply] at h
  | false =>
    simp only [hrel, Bool.false_eq_true, if_false] at h
    refine addDiagramObject_effect h fun v => ?_
    have hrole := Model.role?_of_requireConcept ha
    cases hkind : a.2.kind with
    | element t => exact ⟨t, hkind ▸ hrole⟩
    | relationship t s e => simp [hkind, ConceptKind.isRelationship, ConceptKind.ends?] at hrel

theorem addReference_effect {container view : Key} (h : addReference container view m = .ok k n) :
    m.Effect (.added k) n := by
  obtain ⟨a, ha, h⟩ := check_bind_eq_ok.1 h
  refine addDiagramObject_effect h fun v => ?_
  exact Model.role?_of_requireView ha

theorem addRelationshipConnection_effect {relationship source target : Key}
    (h : addRelationshipConnection relationship source target m = .ok k n) :
    m.Effect (.added k) n := by
  obtain ⟨a, ha, h⟩ := check_bind_eq_ok.1 h
  cases hrel : a.2.kind.isRelationship with
  | false => simp [hrel, throw_apply] at h
  | true =>
    simp only [hrel, if_true] at h
    refine addLine_effect h fun s t v => ?_
    have hrole := Model.role?_of_requireConcept ha
    cases hkind : a.2.kind with
    | element t => simp [hkind, ConceptKind.isRelationship, ConceptKind.ends?] at hrel
    | relationship t s e => exact ⟨t, s, e, hkind ▸ hrole⟩

theorem disconnect_effect {key : Key} (h : disconnect key m = .ok () n) : m.Effect .done n := by
  rw [disconnect_apply] at h
  obtain ⟨⟨o, c⟩, ha, hn⟩ := commit_eq_ok.1 h
  obtain ⟨ho, hc⟩ := Model.requirePart_eq_ok.1 ha
  cases hn
  by_cases hcon : c.isConnected
  · rw [if_pos hcon]
    exact .detached ho (Body.eq_of_connection? hc) hcon
  · rw [if_neg hcon]
    exact .unchanged

theorem reconnect_effect {key : Key} (h : reconnect key m = .ok () n) : m.Effect .done n := by
  rw [reconnect_apply] at h
  obtain ⟨c, ha, hn⟩ := commit_eq_ok.1 h
  obtain ⟨⟨o, d⟩, ha, hd⟩ := bind_eq_ok.1 ha
  obtain ⟨ho, hbody⟩ := Model.requirePart_eq_ok.1 ha
  dsimp only at hd
  cases hn
  by_cases hcon : d.isConnected
  · rw [if_pos hcon] at hd
    cases hd
    rw [if_pos hcon]
    exact .unchanged
  · rw [if_neg hcon] at hd
    obtain ⟨_, _, hd⟩ := bind_eq_ok.1 hd
    obtain ⟨_, _, hd⟩ := bind_eq_ok.1 hd
    cases hd
    rw [if_neg hcon]
    exact .reattached ho (Body.eq_of_connection? hbody) (by simpa using hcon)

theorem revise_effect {key : Key} {expected : Requirement} {change? : Body → Option Body}
    (h : revise key expected change? m = .ok () n)
    (hb : ∀ b c, change? b = some c → c.outline = b.outline) : m.Effect .done n := by
  rw [revise_apply] at h
  obtain ⟨⟨o, b⟩, ha, hn⟩ := commit_eq_ok.1 h
  obtain ⟨ho, hc⟩ := Model.requirePart_eq_ok.1 ha
  cases hn
  exact .revised ho (hb _ _ hc)

theorem setId_effect {key : Key} {id : String} (h : setId key id m = .ok () n) :
    m.Effect .done n := by
  rw [setId_apply] at h
  obtain ⟨o, ha, hn⟩ := commit_eq_ok.1 h
  obtain ⟨hid, ha⟩ := throw_ite_eq_ok.1 ha
  obtain ⟨p, hp, ha⟩ := bind_eq_ok.1 ha
  cases hn
  by_cases hsame : p.id = id
  · rw [if_pos hsame] at ha
    cases ha
    rw [if_pos hsame]
    exact .unchanged
  · rw [if_neg hsame] at ha
    obtain ⟨hused, ha⟩ := throw_ite_eq_ok.1 ha
    cases ha
    rw [if_neg hsame]
    exact .renamed (Model.require_eq_ok.1 hp) hid hsame hused

theorem moveTo_effect {key parent : Key} (h : moveTo key parent m = .ok () n) :
    m.Effect .done n := by
  rw [moveTo_apply] at h
  obtain ⟨a, ha, hn⟩ := commit_eq_ok.1 h
  obtain ⟨o, ho, htop, hp, hc, hw⟩ := Model.of_checkMove ha
  cases hn
  exact .moved ho htop hp hc hw

theorem remove_effect {key : Key} {count : Nat} (h : remove key m = .ok count n) :
    m.Effect (.removed count) n := by
  rw [remove_apply] at h
  obtain ⟨a, ha, hn⟩ := commit_eq_ok.1 h
  obtain ⟨o, ho, ha⟩ := bind_eq_ok.1 ha
  obtain ⟨htop, -⟩ := throw_ite_eq_ok.1 ha
  cases hn
  exact .cleared (Model.require_eq_ok.1 ho) (by simpa using htop) (List.Perm.refl _)

end Edit

theorem Model.Effect.fits_of_added {m : Model} {key p : Key} {b : Body} (h : m.Effect (.added key) (m.added p b))
    (id : String) : m.Fits ⟨id, some p, b⟩ := by
  generalize hn : m.added p b = n at h
  cases h with
  | @added q c hfit =>
    have hentries : m.objects.entries ++ [(m.nextKey, ⟨m.freshId.1, some p, b⟩)] =
        m.objects.entries ++ [(m.nextKey, ⟨m.freshId.1, some q, c⟩)] :=
      congrArg (·.objects.entries) hn
    obtain ⟨rfl, rfl⟩ : p = q ∧ b = c := by simpa using hentries
    exact hfit id

namespace Operation
variable {m n : Model}

theorem map_eq_ok {α : Type} {x : Edit α} {f : α → Answer} {answer : Answer}
    (h : (f <$> x) m = .ok answer n) : ∃ a, x m = .ok a n ∧ f a = answer := by
  rw [Edit.map_apply] at h
  cases hx : x m with
  | ok a p =>
    rw [hx] at h
    cases h
    exact ⟨a, rfl, rfl⟩
  | error e p =>
    rw [hx] at h
    cases h

theorem effect_of_run (op : Operation) {answer : Answer} (h : op.run m = .ok answer n) :
    m.Effect answer n := by
  cases op with
  | addFolder parent name =>
    obtain ⟨k, hk, rfl⟩ := map_eq_ok h
    exact Edit.addFolder_effect hk
  | addElement type name =>
    obtain ⟨k, hk, rfl⟩ := map_eq_ok h
    obtain ⟨folder, -, hk⟩ := Edit.check_bind_eq_ok.1 hk
    exact Edit.addElementIn_effect hk
  | addElementIn folder type name =>
    obtain ⟨k, hk, rfl⟩ := map_eq_ok h
    exact Edit.addElementIn_effect hk
  | addRelationship type source target =>
    obtain ⟨k, hk, rfl⟩ := map_eq_ok h
    obtain ⟨folder, -, hk⟩ := Edit.check_bind_eq_ok.1 hk
    exact Edit.addRelationshipIn_effect hk
  | addRelationshipIn folder type source target =>
    obtain ⟨k, hk, rfl⟩ := map_eq_ok h
    exact Edit.addRelationshipIn_effect hk
  | addView name =>
    obtain ⟨k, hk, rfl⟩ := map_eq_ok h
    obtain ⟨folder, -, hk⟩ := Edit.check_bind_eq_ok.1 hk
    exact Edit.addViewIn_effect hk
  | addViewIn folder name =>
    obtain ⟨k, hk, rfl⟩ := map_eq_ok h
    exact Edit.addViewIn_effect hk
  | addElementObject container concept =>
    obtain ⟨k, hk, rfl⟩ := map_eq_ok h
    exact Edit.addElementObject_effect hk
  | addNote container content =>
    obtain ⟨k, hk, rfl⟩ := map_eq_ok h
    exact Edit.addDiagramObject_effect hk fun _ => trivial
  | addGroup container name =>
    obtain ⟨k, hk, rfl⟩ := map_eq_ok h
    exact Edit.addDiagramObject_effect hk fun _ => trivial
  | addReference container view =>
    obtain ⟨k, hk, rfl⟩ := map_eq_ok h
    exact Edit.addReference_effect hk
  | addConnection source target =>
    obtain ⟨k, hk, rfl⟩ := map_eq_ok h
    exact Edit.addLine_effect hk fun _ _ _ => trivial
  | addRelationshipConnection relationship source target =>
    obtain ⟨k, hk, rfl⟩ := map_eq_ok h
    exact Edit.addRelationshipConnection_effect hk
  | disconnect key =>
    obtain ⟨_, hk, rfl⟩ := map_eq_ok h
    exact Edit.disconnect_effect hk
  | reconnect key =>
    obtain ⟨_, hk, rfl⟩ := map_eq_ok h
    exact Edit.reconnect_effect hk
  | setName key name =>
    obtain ⟨_, hk, rfl⟩ := map_eq_ok h
    obtain ⟨owner, -, hk⟩ := Edit.check_bind_eq_ok.1 hk
    exact Edit.revise_effect hk fun _ _ => Body.outline_of_mapCaption?
  | setDocumentation key documentation =>
    obtain ⟨_, hk, rfl⟩ := map_eq_ok h
    obtain ⟨owner, -, hk⟩ := Edit.check_bind_eq_ok.1 hk
    exact Edit.revise_effect hk fun _ _ => Body.outline_of_mapCaption?
  | setProperty key property value =>
    obtain ⟨_, hk, rfl⟩ := map_eq_ok h
    obtain ⟨owner, -, hk⟩ := Edit.check_bind_eq_ok.1 hk
    exact Edit.revise_effect hk fun _ _ => Body.outline_of_mapProperties?
  | setContent key content =>
    obtain ⟨_, hk, rfl⟩ := map_eq_ok h
    exact Edit.revise_effect hk fun _ _ => Body.outline_of_withContent?
  | setId key id =>
    obtain ⟨_, hk, rfl⟩ := map_eq_ok h
    exact Edit.setId_effect hk
  | moveTo key parent =>
    obtain ⟨_, hk, rfl⟩ := map_eq_ok h
    exact Edit.moveTo_effect hk
  | remove key =>
    obtain ⟨count, hk, rfl⟩ := map_eq_ok h
    exact Edit.remove_effect hk
  | rename name =>
    cases h
    exact .described { m.toDescription with name }
  | setModelDocumentation documentation =>
    cases h
    exact .described { m.toDescription with documentation }
  | setModelProperty property value =>
    cases h
    exact .described { m.toDescription with properties := m.properties.set property value }

end Operation

end ModelLabels
