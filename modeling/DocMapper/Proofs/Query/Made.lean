import DocMapper.Proofs.Query.Built
/-!
# Statements that calls can make

A statement may hold others: as a source, under a name, in a test or in a change. The calls take
statements apart nowhere, so whatever holds of every statement that a call can make holds at every
depth. In particular every `SELECT` selects something, every `TRAVERSE` traverses something, and
several sources are never sub-statements.
-/

namespace DocMapper

open Success

/-! ### The statements inside a statement -/

/-- A test asks for the results of a statement, or a member of it does. -/
inductive Test.Asks (sub : Statement) : Test → Prop where
  | membership (path : String) (op : Operator) : Asks sub (.membership path op (.query sub))
  | member {params : Fields Value} {members : List WhereClause} {clause : WhereClause}
    (hmem : clause ∈ members) (h : Asks sub clause.test) : Asks sub (.group params members)

inductive Condition.Asks (sub : Statement) : Condition → Prop where
  | compare (path token : String) : Asks sub (.compare path token (.query sub))
  | item {items : List Condition} {item : Condition} (hmem : item ∈ items) (h : Asks sub item) :
    Asks sub (.all items)
  | member {logic : Logic} {members : List Condition} {member : Condition}
    (hmem : member ∈ members) (h : Asks sub member) : Asks sub (.group logic members)

namespace Statement

/-- A statement holds another, in one of the places for it. -/
inductive Contains (s sub : Statement) : Prop where
  | source (h : .query sub ∈ s.sources)
  | binding {name : String} (h : (name, .query sub) ∈ s.lets)
  | condition {clause : WhereClause} (hmem : clause ∈ s.conditions) (h : clause.test.Asks sub)
  | change {change : Change} (hmem : change ∈ s.changes) (h : change.term = .query sub)

/-- A property of a statement and of all statements in it, at every depth. -/
inductive Everywhere (p : Statement → Prop) : Statement → Prop where
  | intro {s : Statement} (h : p s) (hsubs : ∀ sub, s.Contains sub → Everywhere p sub) :
    Everywhere p s

variable {p q : Statement → Prop} {s sub : Statement}

theorem Everywhere.self (h : s.Everywhere p) : p s := by
  cases h with
  | intro h _ => exact h

theorem Everywhere.inner (h : s.Everywhere p) (hsub : s.Contains sub) : sub.Everywhere p := by
  cases h with
  | intro _ hsubs => exact hsubs sub hsub

theorem Everywhere.imp (h : s.Everywhere p) (himp : ∀ t, p t → q t) : s.Everywhere q := by
  induction h with
  | intro h _ ih => exact .intro (himp _ h) ih

theorem Everywhere.and (hp : s.Everywhere p) (hq : s.Everywhere q) :
    s.Everywhere fun t => p t ∧ q t := by
  induction hp with
  | intro h _ ih => exact .intro ⟨h, hq.self⟩ fun sub hsub => ih sub hsub (hq.inner hsub)

/-- A change that brings in no other statements than such that have the property. -/
theorem Everywhere.replace {t : Statement} (h : s.Everywhere p) (hp : p s → p t)
    (hsources : ∀ sub, .query sub ∈ t.sources → .query sub ∈ s.sources ∨ sub.Everywhere p)
    (hlets : ∀ name sub, (name, .query sub) ∈ t.lets →
      (name, .query sub) ∈ s.lets ∨ sub.Everywhere p)
    (hconditions : ∀ clause ∈ t.conditions,
      clause ∈ s.conditions ∨ ∀ sub, clause.test.Asks sub → sub.Everywhere p)
    (hchanges : ∀ change ∈ t.changes,
      change ∈ s.changes ∨ ∀ sub, change.term = .query sub → sub.Everywhere p) :
    t.Everywhere p := by
  refine .intro (hp h.self) fun sub hsub => ?_
  cases hsub with
  | source hmem => exact (hsources sub hmem).elim (fun hold => h.inner (.source hold)) id
  | binding hmem => exact (hlets _ sub hmem).elim (fun hold => h.inner (.binding hold)) id
  | condition hmem hasks =>
    exact (hconditions _ hmem).elim (fun hold => h.inner (.condition hold hasks))
      fun hnew => hnew sub hasks
  | change hmem hterm =>
    exact (hchanges _ hmem).elim (fun hold => h.inner (.change hold hterm))
      fun hnew => hnew sub hterm

end Statement

/-! ### The calls -/

/-- The kind stays, and what is selected or traversed is not taken away. -/
structure Frame.Keeps (old new : Frame) : Prop where
  kind : new.kind = old.kind
  projections : old.projections ≠ [] → new.projections ≠ []
  fields : old.fields ≠ [] → new.fields ≠ []

namespace Statement

/-- Statements as calls make them, from nothing but statements that calls have made. -/
inductive Made : Statement → Prop where
  | selectOf (projections : List Projection) : Made (selectOf projections)
  | insert : Made insert
  | updateAll (targets : List String) : Made (updateAll targets)
  | delete : Made delete
  | traverse (fields : List String) : Made (traverse fields)
  | withFrame {s : Statement} (h : Made s) (change : Frame → Frame)
    (hkeeps : s.frame.Keeps (change s.frame)) : Made (s.withFrame change)
  | setSource {s : Statement} (h : Made s) (source : Source)
    (hsource : ∀ sub, source = .query sub → Made sub) : Made (s.setSource source)
  | setTargets {s : Statement} (h : Made s) (targets : List String) : Made (s.setTargets targets)
  | bindName {s : Statement} (h : Made s) (name : String) (v : LetValue)
    (hv : ∀ sub, v = .query sub → Made sub) : Made (s.bindName name v)
  | addChange {s : Statement} (h : Made s) (kind : ChangeKind) (path : String) (term : Term)
    (hterm : ∀ sub, term = .query sub → Made sub) : Made (s.addChange kind path term)
  | pushCondition {s : Statement} (h : Made s) (logic : Logic) (condition : Condition)
    (hcondition : ∀ sub, condition.Asks sub → Made sub) : Made (s.pushCondition logic condition)
  | pushGroup {s : Statement} (h : Made s) (logic : Logic) (build : Statement → Statement)
    (hbuild : Made (build (fresh s.kind))) : Made (s.pushGroup logic build)

/-- There is something to select or to traverse, and of several sources each is a target. -/
structure Shaped (s : Statement) : Prop where
  select : s.kind = .select → s.frame.projections ≠ []
  traverse : s.kind = .traverse → s.frame.fields ≠ []
  sources : s.sources.length ≤ 1 ∨ ∀ source ∈ s.sources, ∃ text, source = .target text

variable {s t : Statement}

theorem Shaped.ofKeeps (h : s.Shaped) (hframe : s.frame.Keeps t.frame)
    (hsources : t.sources = s.sources) : t.Shaped where
  select hkind := hframe.projections (h.select (hframe.kind.symm.trans hkind))
  traverse hkind := hframe.fields (h.traverse (hframe.kind.symm.trans hkind))
  sources := hsources ▸ h.sources

/-- A new frame that keeps what there is. -/
theorem shaped_withFrame (h : s.Everywhere Shaped) {change : Frame → Frame}
    (hkeeps : s.frame.Keeps (change s.frame)) : (s.withFrame change).Everywhere Shaped :=
  h.replace (fun hshaped => hshaped.ofKeeps hkeeps rfl) (fun _ => Or.inl) (fun _ _ => Or.inl)
    (fun _ => Or.inl) (fun _ => Or.inl)

theorem recordError_eq_withFrame (s : Statement) (e : Error) :
    s.recordError e = s.withFrame fun f => { f with error? := some (f.error?.getD e) } := by
  obtain ⟨frame, sources, lets, conditions, changes⟩ := s
  rw [recordError]
  split
  · next old herror =>
    have hold : frame.error? = some old := herror
    simp only [withFrame, hold, Option.getD_some]
    rw [← hold]
  · next herror =>
    have hnone : frame.error? = none := herror
    simp only [withFrame, hnone, Option.getD_none]

theorem shaped_recordError (h : s.Everywhere Shaped) (e : Error) :
    (s.recordError e).Everywhere Shaped := by
  rw [recordError_eq_withFrame]
  exact shaped_withFrame h ⟨rfl, id, id⟩

/-- An attempt takes its step, or leaves at most an error. -/
theorem shaped_attempt (h : s.Everywhere Shaped) {step : Statement → Except Error Statement}
    (hstep : ∀ t, step s = .ok t → t.Everywhere Shaped) : (s.attempt step).Everywhere Shaped := by
  rw [attempt]
  split
  · exact h
  · split
    · next t heq => exact hstep t heq
    · exact shaped_recordError h _

/-! ### Conditions -/

theorem asks_of_testOf {path : String} {op : Operator} {operand : Term} {test : Test}
    {sub : Statement} (h : Filter.testOf path op operand = .ok test) (hasks : test.Asks sub) :
    operand = .query sub := by
  cases hasks with
  | member hmem _ => exact absurd rfl (Filter.single_of_testOf h _ _)
  | membership =>
    cases operand with
    | query inner =>
      rw [Filter.testOf] at h
      split at h
      · cases h
        rfl
      · cases h
    | value v =>
      rw [Filter.testOf] at h
      unfold Filter.testOfValue at h
      split at h
      · cases h
      · split at h
        · cases h
        · cases h
        · split at h <;> cases h
        · split at h <;> cases h

/-- Tests ask for what the conditions asked for that they are made of. -/
theorem admits_asks (p : Statement → Prop) :
    Filter.Admits (fun condition => ∀ sub, condition.Asks sub → p sub)
      (fun test => ∀ sub, test.Asks sub → p sub) where
  compare hask htest sub hasks := hask sub (asks_of_testOf htest hasks ▸ .compare _ _)
  all hask item hmem sub hasks := hask sub (.item hmem hasks)
  group hask member hmem sub hasks := hask sub (.member hmem hasks)
  raw _ sub hasks := nomatch hasks
  members params members _ hmembers sub hasks := by
    cases hasks with
    | member hmem h => exact hmembers _ hmem sub h

/-- The statements that the conditions ask for have the property. -/
abbrev AsksFor (p : Statement → Prop) (filter : Filter) : Prop :=
  filter.All fun test => ∀ sub, test.Asks sub → p sub

theorem Everywhere.asksFor {p : Statement → Prop} (h : s.Everywhere p) :
    AsksFor (Everywhere p) s.filter := by
  intro clause hmem sub hasks
  exact h.inner (.condition hmem hasks)

theorem shaped_setFilter (h : s.Everywhere Shaped) {filter : Filter}
    (hfilter : AsksFor (Everywhere Shaped) filter) : (s.setFilter filter).Everywhere Shaped :=
  h.replace (fun hshaped => hshaped.ofKeeps ⟨rfl, id, id⟩ rfl) (fun _ => Or.inl)
    (fun _ _ => Or.inl) (fun clause hmem => Or.inr (hfilter clause hmem)) (fun _ => Or.inl)

theorem shaped_pushCondition (h : s.Everywhere Shaped) (logic : Logic) {condition : Condition}
    (hcondition : ∀ sub, condition.Asks sub → sub.Everywhere Shaped) :
    (s.pushCondition logic condition).Everywhere Shaped := by
  refine shaped_attempt h fun t hstep => ?_
  obtain ⟨filter, hadd, rfl⟩ := map_eq_ok.mp hstep
  exact shaped_setFilter h (h.asksFor.add (admits_asks _) hcondition hadd)

theorem shaped_pushGroup (h : s.Everywhere Shaped) (logic : Logic)
    {build : Statement → Statement} (hbuild : (build (fresh s.kind)).Everywhere Shaped) :
    (s.pushGroup logic build).Everywhere Shaped := by
  refine shaped_attempt h fun t hstep => ?_
  dsimp only at hstep
  split at hstep
  · cases hstep
  · cases hstep
    exact shaped_setFilter h (h.asksFor.pushGroup (admits_asks _) logic hbuild.asksFor)

/-! ### The other calls -/

theorem extend_ne_nil {old new : List Projection} (hnew : new ≠ []) :
    Projection.extend old new ≠ [] := by
  unfold Projection.extend
  split
  · split
    · exact hnew
    · exact nofun
  · exact List.append_ne_nil_of_right_ne_nil old hnew

theorem keeps_extend (frame : Frame) {projections : List Projection} (hne : projections ≠ []) :
    frame.Keeps { frame with projections := Projection.extend frame.projections projections } where
  kind := rfl
  projections _ := extend_ne_nil hne
  fields := id

/-- A new statement holds no other. -/
theorem everywhere_of_frame {p : Statement → Prop} {frame : Frame}
    (h : p ⟨frame, [], [], [], []⟩) : (Statement.mk frame [] [] [] []).Everywhere p :=
  .intro h nofun

theorem shaped_selectOf (projections : List Projection) :
    (selectOf projections).Everywhere Shaped := by
  have hselect : select.Everywhere Shaped :=
    everywhere_of_frame ⟨fun _ => nofun, nofun, Or.inl (Nat.zero_le 1)⟩
  unfold selectOf addProjections
  split
  · exact hselect
  · next hne => exact shaped_withFrame hselect (keeps_extend _ (by simpa using hne))

theorem shaped_traverse (fields : List String) : (traverse fields).Everywhere Shaped := by
  refine everywhere_of_frame ⟨nofun, fun _ => ?_, Or.inl (Nat.zero_le 1)⟩
  dsimp only
  split
  · exact nofun
  · next hne => simpa using hne

theorem shaped_setSource (h : s.Everywhere Shaped) {source : Source}
    (hsource : ∀ sub, source = .query sub → sub.Everywhere Shaped) :
    (s.setSource source).Everywhere Shaped := by
  refine h.replace ?_ ?_ (fun _ _ => Or.inl) (fun _ => Or.inl) (fun _ => Or.inl)
  · exact fun hshaped => ⟨hshaped.select, hshaped.traverse, Or.inl (Nat.le_refl 1)⟩
  · exact fun sub hmem => Or.inr (hsource sub (List.mem_singleton.mp hmem).symm)

theorem shaped_setTargets (h : s.Everywhere Shaped) (targets : List String) :
    (s.setTargets targets).Everywhere Shaped := by
  have htargets : ∀ source ∈ targets.map Source.target, ∃ text, source = .target text := by
    intro source hmem
    obtain ⟨text, -, rfl⟩ := List.mem_map.mp hmem
    exact ⟨text, rfl⟩
  refine h.replace ?_ ?_ (fun _ _ => Or.inl) (fun _ => Or.inl) (fun _ => Or.inl)
  · exact fun hshaped => ⟨hshaped.select, hshaped.traverse, Or.inr htargets⟩
  · intro sub hmem
    obtain ⟨text, heq⟩ := htargets _ hmem
    cases heq

theorem shaped_bindName (h : s.Everywhere Shaped) (name : String) {v : LetValue}
    (hv : ∀ sub, v = .query sub → sub.Everywhere Shaped) :
    (s.bindName name v).Everywhere Shaped := by
  refine h.replace ?_ (fun _ => Or.inl) ?_ (fun _ => Or.inl) (fun _ => Or.inl)
  · exact fun hshaped => hshaped.ofKeeps ⟨rfl, id, id⟩ rfl
  · intro other sub hmem
    rcases Entries.mem_assign hmem with heq | hold
    · exact Or.inr (hv sub (congrArg Prod.snd heq).symm)
    · exact Or.inl hold

theorem shaped_addChange (h : s.Everywhere Shaped) (kind : ChangeKind) (path : String)
    {term : Term} (hterm : ∀ sub, term = .query sub → sub.Everywhere Shaped) :
    (s.addChange kind path term).Everywhere Shaped := by
  refine h.replace ?_ (fun _ => Or.inl) (fun _ _ => Or.inl) (fun _ => Or.inl) ?_
  · exact fun hshaped => hshaped.ofKeeps ⟨rfl, id, id⟩ rfl
  · intro change hmem
    rcases List.mem_append.mp hmem with hold | hnew
    · exact Or.inl hold
    · rw [List.mem_singleton.mp hnew]
      exact Or.inr hterm

/-- Whatever calls have made is shaped, at every depth. -/
theorem Made.shaped (h : s.Made) : s.Everywhere Shaped := by
  induction h with
  | selectOf projections => exact shaped_selectOf projections
  | insert | updateAll targets | delete =>
    exact everywhere_of_frame ⟨nofun, nofun, Or.inl (Nat.zero_le 1)⟩
  | traverse fields => exact shaped_traverse fields
  | withFrame _ change hkeeps ih => exact shaped_withFrame ih hkeeps
  | setSource _ source _ ih ihsource => exact shaped_setSource ih ihsource
  | setTargets _ targets ih => exact shaped_setTargets ih targets
  | bindName _ name v _ ih ihv => exact shaped_bindName ih name ihv
  | addChange _ kind path term _ ih ihterm => exact shaped_addChange ih kind path ihterm
  | pushCondition _ logic condition _ ih ihcondition =>
    exact shaped_pushCondition ih logic ihcondition
  | pushGroup _ logic build _ ih ihbuild => exact shaped_pushGroup ih logic ihbuild

end Statement

end DocMapper
