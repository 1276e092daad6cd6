import ModelLabels.Index
import ModelLabels.Model.Workspace
import ModelLabels.Proofs.Transition
/-! # The index is never behind

One index serves any number of models while they are made, copied and changed.  It trusts a stamp of
two numbers, and yet every look-up answers what an index that has never been asked would answer.

* `Model.SameStructure`: two states that a walk cannot tell apart; `Snapshot.of_congr`.
* `Model.Effect.version_or`: an effect counts a change of structure or makes none.
* `Session`: models and one index, with every state that was ever seen.
* `Session.Coherent`: what every step of a session preserves.
-/

namespace ModelLabels
set_option autoImplicit false

/-! ## What a snapshot depends on -/

def Snapshot.noteRole (s : Snapshot) (k : Key) (id : String) (r : Role) : Snapshot :=
  let named := { s with byId := s.byId.insert id k }
  match r with
  | .concept kind => named.noteEnds k kind.ends?
  | .diagramObject shows view =>
    match shows.concept? with
    | some concept => named.noteView concept view
    | none => named
  | .connection (some relationship) _ _ (some view) => named.noteView relationship view
  | _ => named

theorem Snapshot.note_eq (s : Snapshot) (k : Key) (o : Object) :
    s.note k o = s.noteRole k o.id o.role := by
  obtain ⟨id, owner, body⟩ := o
  cases body with
  | diagramObject d =>
    obtain ⟨shows, view⟩ := d
    cases shows <;> rfl
  | connection c =>
    obtain ⟨caption, relationship, source, target, isConnected⟩ := c
    cases relationship <;> cases owner <;> rfl
  | _ => rfl

/-- Two states that have the same objects by identifier and role, in the same order and with the same
owners. -/
structure Model.SameStructure (m n : Model) : Prop where
  topLevel : n.topLevel = m.topLevel
  size : n.size = m.size
  links : n.links.filter (·.kind = .contains) = m.links.filter (·.kind = .contains)
  objects : ∀ k, (n.get? k).map (fun o => (o.id, o.role)) = (m.get? k).map fun o => (o.id, o.role)

namespace Model.SameStructure
variable {m n : Model}

theorem refl (m : Model) : m.SameStructure m := ⟨rfl, rfl, rfl, fun _ => rfl⟩

theorem role? (h : m.SameStructure n) (k : Key) : n.role? k = m.role? k := by
  have hk := congrArg (Option.map Prod.snd) (h.objects k)
  rw [Option.map_map, Option.map_map] at hk
  exact hk

theorem contains (h : m.SameStructure n) (k : Key) : n.contains k = m.contains k := by
  have hk := congrArg Option.isSome (h.role? k)
  rw [Model.role?, Model.role?, Option.isSome_map, Option.isSome_map] at hk
  exact hk

theorem isConnection (h : m.SameStructure n) (k : Key) : n.isConnection k = m.isConnection k := by
  rw [Bool.eq_iff_iff, isConnection_iff_role?, isConnection_iff_role?, h.role? k]

theorem outgoing (h : m.SameStructure n) (k : Key) :
    n.outgoing .contains k = m.outgoing .contains k := by
  have split (ls : List Link) : ls.filter (fun l => l.kind = .contains ∧ l.tail = k) =
      (ls.filter (·.kind = .contains)).filter (·.tail = k) := by
    rw [List.filter_filter]
    exact List.filter_congr fun l _ => by simp [and_comm]
  rw [Model.outgoing, Model.outgoing, h.contains k, split, split, h.links]

theorem walkFrom (h : m.SameStructure n) (depth : Nat) (k : Key) :
    n.walkFrom depth k = m.walkFrom depth k := by
  have hc : n.isConnection = m.isConnection := funext h.isConnection
  induction depth generalizing k with
  | zero => rfl
  | succ depth ih =>
    have hw : n.walkFrom depth = m.walkFrom depth := funext ih
    rw [Model.walkFrom, Model.walkFrom, h.outgoing, hc, hw]

theorem walk (h : m.SameStructure n) : n.walk = m.walk := by
  have hw : n.walkFrom m.size = m.walkFrom m.size := funext (h.walkFrom m.size)
  rw [Model.walk, Model.walk, topLevelKeys, topLevelKeys, h.topLevel, h.size, hw]

end Model.SameStructure

theorem Snapshot.stamp_noteView (s : Snapshot) (concept view : Key) :
    (s.noteView concept view).stamp = s.stamp := by
  unfold noteView
  dsimp only
  split <;> rfl

theorem Snapshot.stamp_noteEnds (s : Snapshot) (k : Key) (ends : Option (Key × Key)) :
    (s.noteEnds k ends).stamp = s.stamp := by
  unfold noteEnds
  split
  · split <;> rfl
  · rfl

theorem Snapshot.stamp_note (s : Snapshot) (k : Key) (o : Object) :
    (s.note k o).stamp = s.stamp := by
  unfold note
  split
  · exact stamp_noteEnds _ k _
  · split
    · exact stamp_noteView _ _ _
    · rfl

theorem Snapshot.stamp_of (m : Model) : (Snapshot.of m).stamp = m.stamp := by
  have hnote (s : Snapshot) (k : Key) : (visit m s k).stamp = s.stamp := by
    unfold visit
    split
    · exact stamp_note s k _
    · rfl
  have hfold (ks : List Key) (s : Snapshot) : (ks.foldl (visit m) s).stamp = s.stamp := by
    induction ks generalizing s with
    | nil => rfl
    | cons k ks ih => rw [List.foldl_cons, ih, hnote]
  exact hfold _ _

/-- States that a walk cannot tell apart have the same snapshot, if they carry the same stamp. -/
theorem Snapshot.of_congr {m n : Model} (h : m.SameStructure n) (hs : n.stamp = m.stamp) :
    Snapshot.of n = Snapshot.of m := by
  have hv : visit n = visit m := by
    funext s k
    have ho := h.objects k
    unfold visit
    cases hn : n.get? k <;> cases hm : m.get? k <;> simp only [hn, hm] at ho ⊢
    · cases ho
    · cases ho
    · simp only [Option.map_some, Option.some.injEq, Prod.mk.injEq] at ho
      rw [note_eq, note_eq, ho.1, ho.2]
  rw [Snapshot.of, Snapshot.of, hv, hs, h.walk]

/-! ## Effects and the version number -/

namespace Model
variable {m n : Model}

/-- A change of one object that keeps its identifier and role makes no difference to a walk. -/
theorem SameStructure.of_update {k : Key} {o : Object} {f : Object → Object}
    (hobjects : n.objects = m.objects.update k f) (htop : n.topLevel = m.topLevel)
    (hlinks : n.links.filter (·.kind = .contains) = m.links.filter (·.kind = .contains))
    (ho : m.get? k = some o) (hid : (f o).id = o.id) (hrole : (f o).role = o.role) :
    m.SameStructure n where
  topLevel := htop
  size := by
    show n.objects.size = m.objects.size
    rw [hobjects]
    exact List.length_map _
  links := hlinks
  objects l := by
    have hget := get?_of_objects_eq ho hobjects l
    by_cases h : l = k
    · rw [hget, if_pos h, h, ho]
      simp only [Option.map_some, hid, hrole]
    · rw [hget, if_neg h]

theorem Effect.instanceNumber {answer : Operation.Answer} (h : m.Effect answer n) :
    n.instanceNumber = m.instanceNumber := by
  cases h with
  | cleared _ _ _ => exact (m.cleared_frame _).1
  | _ => rfl

theorem Effect.version_or {answer : Operation.Answer} (h : m.Effect answer n) :
    n.version = m.version + 1 ∨ (n.version = m.version ∧ m.SameStructure n) := by
  cases h with
  | described d => exact .inr ⟨rfl, rfl, rfl, rfl, fun _ => rfl⟩
  | unchanged => exact .inr ⟨rfl, .refl m⟩
  | @revised k o b ho hb =>
    have hrole : { o with body := b }.role = o.role := Object.role_congr rfl hb
    exact .inr ⟨rfl, .of_update (f := fun o => { o with body := b }) rfl rfl rfl ho rfl hrole⟩
  | @detached k o c ho hc h =>
    refine .inr ⟨rfl, .of_update (f := fun o => { o with body := o.body.withConnected false })
      rfl rfl ?_ ho rfl (Object.role_withConnected o false)⟩
    show ((m.links.filter _).filter _).filter _ = _
    rw [List.filter_filter, List.filter_filter]
    exact List.filter_congr fun l _ => by cases l.kind <;> simp
  | @reattached k o c ho hc h =>
    refine .inr ⟨rfl, .of_update (f := fun o => { o with body := o.body.withConnected true })
      rfl rfl ?_ ho rfl (Object.role_withConnected o true)⟩
    show List.filter _ (m.links ++ [_] ++ [_]) = _
    simp
  | renamed _ _ _ _ => exact .inl rfl
  | moved _ _ _ _ _ => exact .inl rfl
  | cleared _ _ _ => exact .inl (m.cleared_frame _).2.2.2
  | added _ => exact .inl rfl

/-- A step keeps the instance number, and the snapshot too unless it counts. -/
theorem Step.snapshot (h : m.Step n) :
    n.instanceNumber = m.instanceNumber ∧ m.version ≤ n.version ∧
      (n.version = m.version → Snapshot.of n = Snapshot.of m) := by
  rcases h.eq_or_effect with rfl | ⟨answer, h⟩
  · exact ⟨rfl, Nat.le_refl _, fun _ => rfl⟩
  · refine ⟨h.instanceNumber, ?_⟩
    rcases h.version_or with hv | ⟨hv, hs⟩
    · exact ⟨by omega, fun he => by omega⟩
    · refine ⟨by omega, fun _ => Snapshot.of_congr hs ?_⟩
      rw [stamp, stamp, hv, h.instanceNumber]

theorem instanceNumber_new (instanceNumber : Nat) (name : String) :
    (Model.new instanceNumber name).instanceNumber = instanceNumber := by
  have hfold (ts : List FolderType) (m : Model) :
      (ts.foldl addTopLevel m).instanceNumber = m.instanceNumber := by
    induction ts generalizing m with
    | nil => rfl
    | cons t ts ih => exact ih _
  exact hfold _ _

end Model

/-! ## Sessions -/

/-- Models by name, one index that is asked about all of them, and every state that a model was ever
seen in. -/
structure Session where
  workspace : Workspace
  index : GraphIndex
  seen : List Model

namespace GraphIndex

inductive Query where
  | keyOf (id : String)
  | objectOf (id : String)
  | relationshipsOf (concept : Key)
  | referencingViews (concept : Key)
  | size

namespace Query

def Answer : Query → Type
  | keyOf _ => Option Key
  | objectOf _ => Option Object
  | relationshipsOf _ | referencingViews _ => List Key
  | size => Nat

/-- Put a query about a model to an index. -/
def ask (m : Model) : (q : Query) → StateM GraphIndex q.Answer
  | keyOf id => GraphIndex.keyOf? m id
  | objectOf id => GraphIndex.objectOf? m id
  | relationshipsOf concept => GraphIndex.relationshipsOf m concept
  | referencingViews concept => GraphIndex.referencingViews m concept
  | size => GraphIndex.size m

theorem ask_congr {m : Model} {ix jx : GraphIndex} (h : (read m ix).1 = (read m jx).1) (q : Query) :
    (q.ask m ix).1 = (q.ask m jx).1 := by
  have hk (id : String) : (GraphIndex.keyOf? m id ix).1 = (GraphIndex.keyOf? m id jx).1 := by
    unfold GraphIndex.keyOf?
    by_cases hid : id = ""
    · rw [if_pos hid]
      rfl
    · rw [if_neg hid]
      exact congrArg (·.byId[id]?) h
  cases q with
  | keyOf id => exact hk id
  | objectOf id => exact congrArg (·.bind m.get?) (hk id)
  | relationshipsOf c => exact congrArg (·.relationships.getD c []) h
  | referencingViews c => exact congrArg (·.views.getD c []) h
  | size => exact congrArg (·.byId.size) h

theorem ask_snd (m : Model) (ix : GraphIndex) (q : Query) :
    (q.ask m ix).2 = (read m ix).2 ∨ (q.ask m ix).2 = ix := by
  have hk (id : String) : (GraphIndex.keyOf? m id ix).2 = (read m ix).2 ∨
      (GraphIndex.keyOf? m id ix).2 = ix := by
    unfold GraphIndex.keyOf?
    by_cases hid : id = ""
    · rw [if_pos hid]
      exact .inr rfl
    · rw [if_neg hid]
      exact .inl rfl
  cases q with
  | keyOf id => exact hk id
  | objectOf id => exact hk id
  | _ => exact .inl rfl

end Query

end GraphIndex

namespace Workspace

theorem get?_put (w : Workspace) (name other : String) (m : Model) :
    (w.put name m).get? other = if other = name then some m else w.get? other := by
  unfold put get?
  by_cases h : other = name
  · subst h
    simp
  · have hne : ¬ name = other := fun e => h e.symm
    simp only [List.find?_cons, hne, decide_false, if_neg h, List.find?_filter]
    congr 2
    funext e
    by_cases he : e.1 = other
    · simp [he, h]
    · simp [he]

end Workspace

namespace Session
variable {s t : Session}

def start : Session := ⟨.empty, .empty, []⟩

/-- What can be done in a session. -/
inductive Step (s : Session) : Session → Prop where
  | create (name title : String) :
      s.Step { s with
        workspace := s.workspace.create name title
        seen := .new s.workspace.nextInstance title :: s.seen }
  | copy {source : String} {m : Model} (name : String) (hm : s.workspace.get? source = some m) :
      s.Step { s with
        workspace := s.workspace.copy name m
        seen := m.copy s.workspace.nextInstance :: s.seen }
  | change {name : String} {m n : Model} (hm : s.workspace.get? name = some m) (h : m.Step n) :
      s.Step { s with workspace := s.workspace.put name n, seen := n :: s.seen }
  | ask {name : String} {m : Model} (hm : s.workspace.get? name = some m)
      (q : GraphIndex.Query) : s.Step { s with index := (q.ask m s.index).2 }
  | invalidate : s.Step { s with index := s.index.invalidate }

/-- The sessions that can come about. -/
inductive Reachable : Session → Prop where
  | start : Reachable start
  | step {s t : Session} (h : Reachable s) (hs : s.Step t) : Reachable t

/-- The models of a session have numbers of their own, and their versions tell their states apart. -/
structure Coherent (s : Session) : Prop where
  known : ∀ name m, s.workspace.get? name = some m → m ∈ s.seen
  numbered : ∀ m ∈ s.seen, m.instanceNumber < s.workspace.nextInstance
  apart : ∀ a b m n, s.workspace.get? a = some m → s.workspace.get? b = some n →
    m.instanceNumber = n.instanceNumber → a = b
  latest : ∀ name m, s.workspace.get? name = some m →
    ∀ h ∈ s.seen, h.instanceNumber = m.instanceNumber →
      h.version ≤ m.version ∧ (h.version = m.version → Snapshot.of h = Snapshot.of m)
  agree : ∀ a ∈ s.seen, ∀ b ∈ s.seen, a.stamp = b.stamp → Snapshot.of a = Snapshot.of b
  cached : ∀ sn, s.index.snapshot? = some sn → ∃ m ∈ s.seen, sn = Snapshot.of m

namespace Coherent

theorem start : Session.start.Coherent where
  known := fun _ _ h => nomatch h
  numbered := fun _ h => nomatch h
  apart := fun _ _ _ _ h => nomatch h
  latest := fun _ _ h => nomatch h
  agree := fun _ h => nomatch h
  cached := fun _ h => nomatch h

/-- A state is seen that is the latest of its number, and no model of another name has the number. -/
theorem put (h : s.Coherent) {name : String} {n : Model} {w : Workspace}
    (hget : ∀ x, w.get? x = if x = name then some n else s.workspace.get? x)
    (hnext : s.workspace.nextInstance ≤ w.nextInstance) (hn : n.instanceNumber < w.nextInstance)
    (hother : ∀ x m, x ≠ name → s.workspace.get? x = some m →
      m.instanceNumber ≠ n.instanceNumber)
    (hlatest : ∀ l ∈ s.seen, l.instanceNumber = n.instanceNumber →
      l.version ≤ n.version ∧ (l.version = n.version → Snapshot.of l = Snapshot.of n)) :
    Coherent { s with workspace := w, seen := n :: s.seen } := by
  refine ⟨fun x m hx => ?_, fun m hm => ?_, fun a b k l ha hb he => ?_, fun x k hx l hl he => ?_,
    fun a ha b hb he => ?_, fun sn hsn => ?_⟩
  · rw [hget] at hx
    split at hx
    · cases hx
      exact List.mem_cons_self
    · exact List.mem_cons_of_mem _ (h.known x m hx)
  · rcases List.mem_cons.1 hm with rfl | hm
    · exact hn
    · exact Nat.lt_of_lt_of_le (h.numbered m hm) hnext
  · rw [hget] at ha hb
    split at ha <;> split at hb
    · simp_all
    · cases ha
      exact absurd he.symm (hother b l ‹_› hb)
    · cases hb
      exact absurd he (hother a k ‹_› ha)
    · exact h.apart a b k l ha hb he
  · rw [hget] at hx
    split at hx
    · cases hx
      rcases List.mem_cons.1 hl with rfl | hl
      · exact ⟨Nat.le_refl _, fun _ => rfl⟩
      · exact hlatest l hl he
    · rcases List.mem_cons.1 hl with rfl | hl
      · exact absurd he.symm (hother x k ‹_› hx)
      · exact h.latest x k hx l hl he
  · have hi : a.instanceNumber = b.instanceNumber := congrArg Stamp.instanceNumber he
    have hv : a.version = b.version := congrArg Stamp.version he
    rcases List.mem_cons.1 ha with rfl | hma <;> rcases List.mem_cons.1 hb with rfl | hmb
    · rfl
    · exact ((hlatest b hmb hi.symm).2 hv.symm).symm
    · exact (hlatest a hma hi).2 hv
    · exact h.agree a hma b hmb he
  · obtain ⟨l, hl, he⟩ := h.cached sn hsn
    exact ⟨l, List.mem_cons_of_mem _ hl, he⟩

/-- A model that is made gets a number that no state seen before has. -/
theorem make (h : s.Coherent) (name : String) {build : Nat → Model}
    (hb : ∀ i, (build i).instanceNumber = i) :
    Coherent { s with
      workspace := s.workspace.make name build
      seen := build s.workspace.nextInstance :: s.seen } := by
  have hnew : ∀ m ∈ s.seen, m.instanceNumber ≠ (build s.workspace.nextInstance).instanceNumber := by
    intro m hm he
    have hlt := h.numbered m hm
    rw [he, hb] at hlt
    exact Nat.lt_irrefl _ hlt
  refine h.put (s.workspace.get?_put name · _) (Nat.le_succ _) ?_
    (fun x m _ hx => hnew m (h.known x m hx)) fun l hl he => absurd he (hnew l hl)
  rw [hb]
  exact Nat.lt_succ_self _

theorem change (h : s.Coherent) {name : String} {m n : Model}
    (hm : s.workspace.get? name = some m) (hs : m.Step n) :
    Coherent { s with workspace := s.workspace.put name n, seen := n :: s.seen } := by
  obtain ⟨hi, hle, hsame⟩ := hs.snapshot
  refine h.put (s.workspace.get?_put name · n) (Nat.le_refl _) ?_ (fun x k hx hk he => ?_)
    fun l hl he => ?_
  · rw [hi]
    exact h.numbered m (h.known name m hm)
  · exact hx (h.apart x name k m hk hm (he.trans hi))
  · obtain ⟨hv, hsn⟩ := h.latest name m hm l hl (he.trans hi)
    refine ⟨Nat.le_trans hv hle, fun heq => ?_⟩
    rw [hsn (by omega), hsame (by omega)]

/-- Reading a model of the session keeps a snapshot of one of the states that were seen. -/
theorem withIndex (h : s.Coherent) {ix : GraphIndex}
    (hc : ∀ sn, ix.snapshot? = some sn → ∃ m ∈ s.seen, sn = Snapshot.of m) :
    Coherent { s with index := ix } :=
  ⟨h.known, h.numbered, h.apart, h.latest, h.agree, hc⟩

/-- What an index reads of a model of the session is the model's own snapshot. -/
theorem read_fst (h : s.Coherent) {name : String} {m : Model}
    (hm : s.workspace.get? name = some m) : (GraphIndex.read m s.index).1 = Snapshot.of m := by
  unfold GraphIndex.read GraphIndex.current?
  cases hsn : s.index.snapshot? with
  | none => rfl
  | some sn =>
    obtain ⟨l, hl, rfl⟩ := h.cached sn hsn
    by_cases hstamp : (Snapshot.of l).stamp = m.stamp
    · simp only [Option.filter_some, hstamp, decide_true, if_true]
      rw [Snapshot.stamp_of] at hstamp
      exact h.agree l hl m (h.known name m hm) hstamp
    · simp only [Option.filter_some, hstamp, decide_false, Bool.false_eq_true, if_false]

theorem cached_read (h : s.Coherent) {name : String} {m : Model}
    (hm : s.workspace.get? name = some m) (sn : Snapshot)
    (hsn : (GraphIndex.read m s.index).2.snapshot? = some sn) : ∃ l ∈ s.seen, sn = Snapshot.of l := by
  unfold GraphIndex.read at hsn
  cases hc : s.index.current? m with
  | some t =>
    rw [hc] at hsn
    exact h.cached sn hsn
  | none =>
    rw [hc] at hsn
    cases hsn
    exact ⟨m, h.known name m hm, rfl⟩

theorem step (h : s.Coherent) (hs : s.Step t) : t.Coherent := by
  cases hs with
  | create name title => exact h.make name fun i => Model.instanceNumber_new i title
  | copy name hm => exact h.make name fun _ => rfl
  | change hm hs => exact h.change hm hs
  | @ask name m hm q =>
    refine h.withIndex fun sn hsn => ?_
    rcases q.ask_snd m s.index with he | he <;> rw [he] at hsn
    · exact h.cached_read hm sn hsn
    · exact h.cached sn hsn
  | invalidate => exact h.withIndex fun sn hsn => nomatch hsn

end Coherent

theorem Reachable.coherent (h : s.Reachable) : s.Coherent := by
  induction h with
  | start => exact .start
  | step _ hs ih => exact ih.step hs

/-- Every query about a model of a session is answered as by an index that was never asked before;
and states that carry the same stamp have the same snapshot. -/
theorem ask_eq_ask_empty (h : s.Reachable) :
    (∀ name m, s.workspace.get? name = some m → ∀ q : GraphIndex.Query,
      (q.ask m s.index).1 = (q.ask m GraphIndex.empty).1) ∧
    ∀ a ∈ s.seen, ∀ b ∈ s.seen, a.stamp = b.stamp → Snapshot.of a = Snapshot.of b := by
  refine ⟨fun name m hm q => ?_, h.coherent.agree⟩
  exact q.ask_congr (h.coherent.read_fst hm)

/-- A model is made, counted and then changed: the index still answers for the present state. -/
theorem ask_eq_ask_empty_edited :
    let m := Model.new 1 "Plan"
    let n := (m.apply (.addElement .businessActor "Buyer")).2
    let s : Session :=
      ⟨(Workspace.empty.create "main" "Plan").put "main" n,
        (GraphIndex.Query.size.ask m .empty).2, [n, m]⟩
    s.Reachable ∧ n ≠ m ∧ ∀ q : GraphIndex.Query, (q.ask n s.index).1 = (q.ask n .empty).1 := by
  intro m n s
  have hm : (Workspace.empty.create "main" "Plan").get? "main" = some m := rfl
  have hr : s.Reachable :=
    .step (.step (.step .start (.create "main" "Plan")) (.ask hm .size)) (.change hm (.apply _))
  refine ⟨hr, fun he => ?_, fun q => (ask_eq_ask_empty hr).1 "main" n rfl q⟩
  have hv : n.version = m.version := congrArg Model.version he
  revert hv
  decide

end Session

end ModelLabels
