import DocMapper.Compile.Statement
import DocMapper.Proofs.Query.Groups
import DocMapper.Proofs.Query.Made
/-!
# Single calls

The calls that set a clause of a statement, as data: what each of them does, the clause it is about,
the statements it brings, and what it complains of. A call that complains notes its error behind
those noted before, and no call takes anything from a statement but to put something of the same
clause in its place.
-/

namespace DocMapper

/-- The clause that the changes of a kind are written in. -/
def ChangeKind.clause : ChangeKind → Clause
  | .set => .set
  | .increment => .increment
  | .add => .add
  | .remove => .remove
  | .put => .put

inductive ClauseCall where
  | setSchema (schema : Schema)
  | setParam (name : String) (v : Value)
  | setParams (params : List (String × Value))
  | addTransform (step : Row → Row)
  | recordError (e : Error)
  | addProjections (projections : List Projection)
  | setFields (fields : List String)
  | setSource (source : Source)
  | setTargets (targets : List String)
  | bindName (name : String) (v : LetValue)
  | pushCondition (logic : Logic) (condition : Condition)
  | joinBy (logic : Logic) (condition : Condition)
  | groupBy (fields : List String)
  | orderBy (property direction : String)
  | setSkip (n : UInt64)
  | setLimit (n : Int64)
  | fetch (path : String) (depth : Int64)
  | setTimeout (n : UInt64)
  | setLock (mode : LockMode)
  | setParallel (parallel : Bool)
  | setStrategy (strategy : Strategy)
  | setInto (target : String)
  | addChange (kind : ChangeKind) (path : String) (term : Term)
  | addChanges (kind : ChangeKind) (pairs : List (String × Value))
  | put (path : String) (entries : List (String × Value))
  | change (kind : ChangeKind) (changes : Fields Value)
  | content (document : Value)
  | merge (document : Value)
  | setUpsert (upsert : Bool)
  | returnMode (mode : String) (expression? : Option String)
  | returnExpression (expression : String)

namespace ClauseCall

def apply (s : Statement) : ClauseCall → Statement
  | .setSchema schema => s.setSchema schema
  | .setParam name v => s.setParam name v
  | .setParams params => s.setParams params
  | .addTransform step => s.addTransform step
  | .recordError e => s.recordError e
  | .addProjections projections => s.addProjections projections
  | .setFields fields => s.setFields fields
  | .setSource source => s.setSource source
  | .setTargets targets => s.setTargets targets
  | .bindName name v => s.bindName name v
  | .pushCondition logic condition => s.pushCondition logic condition
  | .joinBy logic condition => s.joinBy logic condition
  | .groupBy fields => s.groupBy fields
  | .orderBy property direction => s.orderBy property direction
  | .setSkip n => s.setSkip n
  | .setLimit n => s.setLimit n
  | .fetch path depth => s.fetch path depth
  | .setTimeout n => s.setTimeout n
  | .setLock mode => s.setLock mode
  | .setParallel parallel => s.setParallel parallel
  | .setStrategy strategy => s.setStrategy strategy
  | .setInto target => s.setInto target
  | .addChange kind path term => s.addChange kind path term
  | .addChanges kind pairs => s.addChanges kind pairs
  | .put path entries => s.put path entries
  | .change kind changes => s.change kind changes
  | .content document => s.content document
  | .merge document => s.merge document
  | .setUpsert upsert => s.setUpsert upsert
  | .returnMode mode expression? => s.returnMode mode expression?
  | .returnExpression expression => s.returnExpression expression

/-- The clause that a call is about. The first calls are about none. -/
def clause? : ClauseCall → Option Clause
  | .setSchema _ | .setParam _ _ | .setParams _ | .addTransform _ | .recordError _ => none
  | .addProjections _ => some .select
  | .setFields _ => some .traverse
  | .setSource _ | .setTargets _ => some .from
  | .bindName _ _ => some .let
  | .pushCondition _ _ | .joinBy _ _ => some .where
  | .groupBy _ => some .group
  | .orderBy _ _ => some .order
  | .setSkip _ => some .skip
  | .setLimit _ => some .limit
  | .fetch _ _ => some .fetchPlan
  | .setTimeout _ => some .timeout
  | .setLock _ => some .lock
  | .setParallel _ => some .parallel
  | .setStrategy _ => some .strategy
  | .setInto _ => some .into
  | .addChange kind _ _ | .addChanges kind _ | .change kind _ => some kind.clause
  | .put _ _ => some .put
  | .content _ => some .content
  | .merge _ => some .merge
  | .setUpsert _ => some .upsert
  | .returnMode _ _ | .returnExpression _ => some .return

/-- A statement that comes in with a call. -/
def Brings (sub : Statement) : ClauseCall → Prop
  | .setSource source => source = .query sub
  | .bindName _ v => v = .query sub
  | .pushCondition _ condition | .joinBy _ condition => condition.Asks sub
  | .addChange _ _ term => term = .query sub
  | _ => False

/-- What is put on a path is a map of entries. -/
def putFailure? (entry : String × Value) : Option Error :=
  match entry.2 with
  | .map _ => none
  | other => some (.invalidArgument
      s!"put on `{entry.1}` expects a map of entries, got {other.literal}")

/-- What a call complains of when it is made on a statement of a kind. -/
def failure? (kind : StatementKind) : ClauseCall → Option Error
  | .recordError e => some e
  | .pushCondition _ condition | .joinBy _ condition => condition.failure?
  | .change .put changes => changes.findSome? putFailure?
  | .content (.map _) | .merge (.map _) => none
  | .content other => some (.invalidArgument s!"content expects a map, got {other.literal}")
  | .merge other => some (.invalidArgument s!"merge expects a map, got {other.literal}")
  | .returnMode mode expression? =>
    Grouping.failureOf (ReturnClause.ofMode (Statement.returnModes kind) mode expression?)
  | _ => none

end ClauseCall

/-! ### From one statement to the next -/

namespace Statement

/-- A clause that may hold statements is there. -/
inductive Uses (s : Statement) : Clause → Prop where
  | source (h : s.sources ≠ []) : Uses s .from
  | binding (h : s.lets ≠ []) : Uses s .let
  | condition (h : s.conditions ≠ []) : Uses s .where
  | change {change : Change} (hmem : change ∈ s.changes) : Uses s change.kind.clause

/-- The kind stays. A statement that was not held before has been brought, and a clause that was not
used before is about to be. -/
structure Grows (brought : Statement → Prop) (about : Clause → Prop) (s t : Statement) : Prop where
  kind : t.kind = s.kind
  contains : ∀ sub, t.Contains sub → s.Contains sub ∨ brought sub
  uses : ∀ clause, t.Uses clause → s.Uses clause ∨ about clause

variable {brought brought' : Statement → Prop} {about about' : Clause → Prop} {s t u : Statement}

theorem Grows.refl (s : Statement) : Grows brought about s s :=
  ⟨rfl, fun _ => Or.inl, fun _ => Or.inl⟩

theorem Grows.trans (h : Grows brought about s t) (h' : Grows brought about t u) :
    Grows brought about s u where
  kind := h'.kind.trans h.kind
  contains sub hsub := (h'.contains sub hsub).elim (h.contains sub) Or.inr
  uses clause huses := (h'.uses clause huses).elim (h.uses clause) Or.inr

theorem Grows.mono (h : Grows brought about s t) (hbrought : ∀ sub, brought sub → brought' sub)
    (habout : ∀ clause, about clause → about' clause) : Grows brought' about' s t where
  kind := h.kind
  contains sub hsub := (h.contains sub hsub).imp_right (hbrought sub)
  uses clause huses := (h.uses clause huses).imp_right (habout clause)

theorem grows_foldl {α : Type} {step : Statement → α → Statement} {items : List α}
    (h : ∀ a ∈ items, ∀ s, Grows brought about s (step s a)) (s : Statement) :
    Grows brought about s (items.foldl step s) := by
  induction items generalizing s with
  | nil => exact .refl s
  | cons a rest ih =>
    obtain ⟨hfirst, hrest⟩ := List.forall_mem_cons.mp h
    exact (hfirst s).trans (ih hrest (step s a))

/-- The frame holds no statement. -/
theorem grows_of_frame (h : t = { s with frame := t.frame }) (hkind : t.kind = s.kind) :
    Grows brought about s t := by
  generalize t.frame = frame at h
  subst h
  refine ⟨hkind, fun sub hsub => Or.inl ?_, fun clause huses => Or.inl ?_⟩
  · cases hsub with
    | source h => exact .source h
    | binding h => exact .binding h
    | condition hmem h => exact .condition hmem h
    | change hmem h => exact .change hmem h
  · cases huses with
    | source h => exact .source h
    | binding h => exact .binding h
    | condition h => exact .condition h
    | change hmem => exact .change hmem

theorem grows_recordError (s : Statement) (e : Error) : Grows brought about s (s.recordError e) := by
  rw [recordError_eq_withFrame]
  exact grows_of_frame rfl rfl

theorem grows_attempt {step : Statement → Except Error Statement}
    (h : ∀ t, step s = .ok t → Grows brought about s t) :
    Grows brought about s (s.attempt step) := by
  unfold attempt
  split
  · exact .refl s
  · split
    · next t heq => exact h t heq
    · exact grows_recordError s _

theorem grows_addProjections (s : Statement) (projections : List Projection) :
    Grows brought about s (s.addProjections projections) := by
  unfold addProjections
  split
  · exact .refl s
  · exact grows_of_frame rfl rfl

theorem grows_returnMode (s : Statement) (mode : String) (expression? : Option String) :
    Grows brought about s (s.returnMode mode expression?) := by
  unfold returnMode
  split
  · exact grows_of_frame rfl rfl
  · exact grows_recordError s _

theorem grows_setSources {sources : List Source} (habout : about .from)
    (hbrought : ∀ sub, .query sub ∈ sources → brought sub) :
    Grows brought about s { s with sources := sources } where
  kind := rfl
  contains sub hsub := by
    cases hsub with
    | source h => exact Or.inr (hbrought sub h)
    | binding h => exact Or.inl (.binding h)
    | condition hmem h => exact Or.inl (.condition hmem h)
    | change hmem h => exact Or.inl (.change hmem h)
  uses clause huses := by
    cases huses with
    | source _ => exact Or.inr habout
    | binding h => exact Or.inl (.binding h)
    | condition h => exact Or.inl (.condition h)
    | change hmem => exact Or.inl (.change hmem)

theorem grows_bindName (habout : about .let) {name : String} {v : LetValue}
    (hbrought : ∀ sub, v = .query sub → brought sub) :
    Grows brought about s (s.bindName name v) where
  kind := rfl
  contains sub hsub := by
    cases hsub with
    | source h => exact Or.inl (.source h)
    | binding h =>
      rcases Entries.mem_assign h with heq | hold
      · exact Or.inr (hbrought sub (congrArg Prod.snd heq).symm)
      · exact Or.inl (.binding hold)
    | condition hmem h => exact Or.inl (.condition hmem h)
    | change hmem h => exact Or.inl (.change hmem h)
  uses clause huses := by
    cases huses with
    | source h => exact Or.inl (.source h)
    | binding _ => exact Or.inr habout
    | condition h => exact Or.inl (.condition h)
    | change hmem => exact Or.inl (.change hmem)

theorem grows_appendChanges {changes : List Change}
    (habout : ∀ change ∈ changes, about change.kind.clause)
    (hbrought : ∀ change ∈ changes, ∀ sub, change.term = .query sub → brought sub) :
    Grows brought about s { s with changes := s.changes ++ changes } where
  kind := rfl
  contains sub hsub := by
    cases hsub with
    | source h => exact Or.inl (.source h)
    | binding h => exact Or.inl (.binding h)
    | condition hmem h => exact Or.inl (.condition hmem h)
    | change hmem h =>
      rcases List.mem_append.mp hmem with hold | hnew
      · exact Or.inl (.change hold h)
      · exact Or.inr (hbrought _ hnew sub h)
  uses clause huses := by
    cases huses with
    | source h => exact Or.inl (.source h)
    | binding h => exact Or.inl (.binding h)
    | condition h => exact Or.inl (.condition h)
    | change hmem =>
      rcases List.mem_append.mp hmem with hold | hnew
      · exact Or.inl (.change hold)
      · exact Or.inr (habout _ hnew)

/-- The tests of the new conditions ask for statements that were held before, or brought. -/
theorem grows_setFilter (habout : about .where) {filter : Filter}
    (hbrought : AsksFor (fun sub => s.Contains sub ∨ brought sub) filter) :
    Grows brought about s (s.setFilter filter) where
  kind := rfl
  contains sub hsub := by
    cases hsub with
    | source h => exact Or.inl (.source h)
    | binding h => exact Or.inl (.binding h)
    | condition hmem h => exact hbrought _ hmem sub h
    | change hmem h => exact Or.inl (.change hmem h)
  uses clause huses := by
    cases huses with
    | source h => exact Or.inl (.source h)
    | binding h => exact Or.inl (.binding h)
    | condition _ => exact Or.inr habout
    | change hmem => exact Or.inl (.change hmem)

theorem asksFor_filter (s : Statement) :
    AsksFor (fun sub => s.Contains sub ∨ brought sub) s.filter :=
  fun _ hmem _ hasks => Or.inl (.condition hmem hasks)

theorem grows_pushCondition (habout : about .where) (logic : Logic) {condition : Condition}
    (hbrought : ∀ sub, condition.Asks sub → brought sub) :
    Grows brought about s (s.pushCondition logic condition) := by
  refine grows_attempt fun t hstep => ?_
  obtain ⟨filter, hadd, rfl⟩ := Success.map_eq_ok.mp hstep
  refine grows_setFilter habout (s.asksFor_filter.add (admits_asks _) ?_ hadd)
  exact fun sub hasks => Or.inr (hbrought sub hasks)

theorem grows_joinBy (habout : about .where) (logic : Logic) {condition : Condition}
    (hbrought : ∀ sub, condition.Asks sub → brought sub) :
    Grows brought about s (s.joinBy logic condition) := by
  cases condition with
  | all items =>
    refine grows_foldl (fun item hmem s => ?_) s
    exact grows_pushCondition habout logic fun sub hasks => hbrought sub (.item hmem hasks)
  | group inner members =>
    refine grows_pushCondition habout .and fun sub hasks => ?_
    cases hasks with
    | member hmem hasks => exact hbrought sub (.member hmem hasks)
  | compare path token operand => exact grows_pushCondition habout logic hbrought
  | raw sql params => exact grows_pushCondition habout logic hbrought
  | invalid e => exact grows_pushCondition habout logic hbrought

theorem grows_put (habout : about .put) (path : String) (entries : List (String × Value)) :
    Grows brought about s (s.put path entries) := by
  unfold put
  split
  · exact .refl s
  · exact grows_appendChanges (List.forall_mem_singleton.mpr habout)
      (List.forall_mem_singleton.mpr nofun)

theorem grows_addChanges {kind : ChangeKind} (habout : about kind.clause)
    (pairs : List (String × Value)) : Grows brought about s (s.addChanges kind pairs) := by
  refine grows_appendChanges (fun change hmem => ?_) fun change hmem => ?_
  all_goals obtain ⟨pair, -, rfl⟩ := List.mem_map.mp hmem
  · exact habout
  · exact nofun

theorem grows_change {kind : ChangeKind} (habout : about kind.clause) (changes : Fields Value) :
    Grows brought about s (s.change kind changes) := by
  unfold change
  split
  · next hput =>
    rw [hput] at habout
    refine grows_foldl (fun entry _ s => ?_) s
    split
    · exact grows_put habout entry.1 _
    · exact grows_recordError s _
  · exact grows_addChanges habout changes

end Statement

namespace ClauseCall

open Statement

/-- A call leaves what there is, but for the clause it is about. -/
theorem grows (s : Statement) (call : ClauseCall) :
    Grows (fun sub => call.Brings sub) (fun clause => call.clause? = some clause) s
      (call.apply s) := by
  cases call with
  | recordError e => exact grows_recordError s e
  | addProjections projections => exact grows_addProjections s projections
  | setSource source =>
    exact grows_setSources rfl fun sub hmem => (List.mem_singleton.mp hmem).symm
  | setTargets targets =>
    refine grows_setSources rfl fun sub hmem => ?_
    obtain ⟨text, -, heq⟩ := List.mem_map.mp hmem
    cases heq
  | bindName name v =>
    refine grows_bindName ?_ fun sub hv => hv
    rfl
  | pushCondition logic condition =>
    refine grows_pushCondition ?_ logic fun sub hasks => hasks
    rfl
  | joinBy logic condition =>
    refine grows_joinBy ?_ logic fun sub hasks => hasks
    rfl
  | addChange kind path term =>
    exact grows_appendChanges (List.forall_mem_singleton.mpr rfl)
      (List.forall_mem_singleton.mpr fun _ hterm => hterm)
  | addChanges kind pairs =>
    refine grows_addChanges ?_ pairs
    rfl
  | put path entries =>
    refine grows_put ?_ path entries
    rfl
  | change kind changes =>
    refine grows_change ?_ changes
    rfl
  | content document =>
    cases document with
    | map =>
      exact grows_of_frame rfl rfl
    | _ => exact grows_recordError s _
  | merge document =>
    cases document with
    | map =>
      exact grows_of_frame rfl rfl
    | _ => exact grows_recordError s _
  | returnMode mode expression? => exact grows_returnMode s mode expression?
  | _ =>
    exact grows_of_frame rfl rfl

theorem kind_apply (s : Statement) (call : ClauseCall) : (call.apply s).kind = s.kind :=
  (call.grows s).kind

/-! ### What a call complains of -/

theorem error?_recordError (s : Statement) (e : Error) :
    (s.recordError e).error? = s.error?.or (some e) := by
  rw [recordError_error?]
  cases s.error? <;> rfl

theorem error?_joinBy (s : Statement) (logic : Logic) (condition : Condition) :
    (s.joinBy logic condition).error? = s.error?.or condition.failure? := by
  cases condition with
  | all items =>
    have hitems : ∀ s : Statement,
        (items.foldl (fun s item => s.pushCondition logic item) s).error? =
          s.error?.or (Condition.firstFailure? items) := by
      induction items with
      | nil => exact fun s => Option.or_none.symm
      | cons item rest ih =>
        intro s
        rw [List.foldl_cons, ih, error?_pushCondition, Condition.firstFailure?, Option.or_assoc]
    exact hitems s
  | group inner members => exact error?_pushCondition .and s (.group logic members)
  | compare path token operand => exact error?_pushCondition logic s _
  | raw sql params => exact error?_pushCondition logic s _
  | invalid e => exact error?_pushCondition logic s _

theorem error?_addProjections (s : Statement) (projections : List Projection) :
    (s.addProjections projections).error? = s.error? := by
  unfold Statement.addProjections
  split <;> rfl

theorem error?_returnMode (s : Statement) (mode : String) (expression? : Option String) :
    (s.returnMode mode expression?).error? =
      s.error?.or (Grouping.failureOf (ReturnClause.ofMode (returnModes s.kind) mode expression?)) := by
  unfold Statement.returnMode
  cases ReturnClause.ofMode (returnModes s.kind) mode expression? with
  | ok clause => exact Option.or_none.symm
  | error e => exact error?_recordError s e

theorem error?_put (s : Statement) (path : String) (entries : List (String × Value)) :
    (s.put path entries).error? = s.error? := by
  unfold Statement.put
  split <;> rfl

theorem error?_change (s : Statement) (kind : ChangeKind) (changes : Fields Value) :
    (s.change kind changes).error? = s.error?.or ((change kind changes).failure? s.kind) := by
  cases kind with
  | put =>
    have hentries : ∀ (entries : List (String × Value)) (s : Statement),
        (entries.foldl (fun s entry =>
          match entry.2 with
          | .map entries => s.put entry.1 entries
          | other => s.recordError (.invalidArgument
              s!"put on `{entry.1}` expects a map of entries, got {other.literal}")) s).error? =
          s.error?.or (entries.findSome? putFailure?) := by
      intro entries
      induction entries with
      | nil => exact fun s => Option.or_none.symm
      | cons entry rest ih =>
        intro s
        rw [List.foldl_cons, ih, List.findSome?_cons, putFailure?]
        split
        · rw [error?_put]
        · rw [error?_recordError, Option.or_assoc]
          rfl
    exact hentries changes s
  | set | increment | add | remove => exact Option.or_none.symm

/-- The error that was noted before stays; otherwise the call's own is noted, if it has one. -/
theorem error?_apply (s : Statement) (call : ClauseCall) :
    (call.apply s).error? = s.error?.or (call.failure? s.kind) := by
  cases call with
  | recordError e => exact error?_recordError s e
  | addProjections projections =>
    exact (error?_addProjections s projections).trans Option.or_none.symm
  | pushCondition logic condition => exact error?_pushCondition logic s condition
  | joinBy logic condition => exact error?_joinBy s logic condition
  | put path entries => exact (error?_put s path entries).trans Option.or_none.symm
  | change kind changes => exact error?_change s kind changes
  | content document =>
    cases document with
    | map => exact Option.or_none.symm
    | _ => exact error?_recordError s _
  | merge document =>
    cases document with
    | map => exact Option.or_none.symm
    | _ => exact error?_recordError s _
  | returnMode mode expression? => exact error?_returnMode s mode expression?
  | _ => exact Option.or_none.symm

end ClauseCall

end DocMapper
