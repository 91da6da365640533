import DocMapper.Proofs.Query.OptionCalls
/-!
# Sequences of calls

All that is done to a statement while it is built, options, groups and sub-queries included. A call
that fails notes its error on the statement. The first error that was raised stays, whatever the
calls are and whatever comes after it.
-/

namespace DocMapper

open Grouping (failureOf)

/-- The calls on a statement. A group is built by calls on a new statement of the same kind, and a
sub-query by whatever starts a statement. -/
inductive BuilderCall where
  | clause (call : ClauseCall)
  | option (name : String) (json : Json)
  | group (logic : Logic) (calls : List BuilderCall)
  | subquery (path token : String) (build : Query → Except Error Query)

namespace BuilderCall

mutual

def perform (s : Statement) : BuilderCall → Statement
  | .clause call => call.apply s
  | .option name json => s.setOption name json
  | .group logic calls => s.pushGroup logic fun sub => performAll sub calls
  | .subquery path token build => s.whereSubquery path token build

def performAll (s : Statement) : List BuilderCall → Statement
  | [] => s
  | call :: rest => performAll (call.perform s) rest

end

mutual

/-- What a call complains of when it is made on a statement of a kind. -/
def failure? (kind : StatementKind) : BuilderCall → Option Error
  | .clause call => call.failure? kind
  | .option name json =>
    match ClauseCall.ofOption? kind name json with
    | some (.ok calls) => calls.findSome? (ClauseCall.failure? kind)
    | some (.error e) => some e
    | none =>
      if Statement.clauseNames.contains name then some (.unsupportedClause kind name) else none
  | .group _ calls => firstFailure? kind calls
  | .subquery path token build => failureOf (Statement.subqueryCondition path token build)

def firstFailure? (kind : StatementKind) : List BuilderCall → Option Error
  | [] => none
  | call :: rest => (call.failure? kind).or (firstFailure? kind rest)

end

mutual

/-- A statement that comes in with a call. -/
def Brings (sub : Statement) : BuilderCall → Prop
  | .clause call => call.Brings sub
  | .option _ _ => False
  | .group _ calls => AnyBrings sub calls
  | .subquery _ _ build => ∃ q, build .empty = .ok q ∧ sub ∈ q.statement?

def AnyBrings (sub : Statement) : List BuilderCall → Prop
  | [] => False
  | call :: rest => call.Brings sub ∨ AnyBrings sub rest

end

/-- The clauses that a call is about. -/
def IsAbout (kind : StatementKind) : BuilderCall → Clause → Prop
  | .clause call, c => call.clause? = some c
  | .option _ _, c => c ∈ kind.clauses
  | .group _ _, c | .subquery _ _ _, c => c = .where

/-- A call of a kind of statement: its clauses are clauses of the kind. -/
def OfferedBy (kind : StatementKind) (call : BuilderCall) : Prop :=
  ∀ clause, call.IsAbout kind clause → clause ∈ kind.clauses

end BuilderCall

/-! ### Sub-queries of conditions -/

theorem Operator.ofToken_code (op : Operator) : ofToken op.code = .ok op := by
  cases op <;> rfl

/-- What asks for the results of a sub-query is a comparison that can be made. -/
theorem Statement.failure?_of_subqueryCondition {path token : String}
    {build : Query → Except Error Query} {condition : Condition}
    (h : subqueryCondition path token build = .ok condition) : condition.failure? = none := by
  obtain ⟨op, -, hshape⟩ := Success.bind_eq_ok.mp h
  split at hshape
  · next hmembership =>
    obtain ⟨q, -, hstatement⟩ := Success.bind_eq_ok.mp hshape
    split at hstatement
    · cases hstatement
      rw [Condition.failure?, Operator.ofToken_code, Success.ok_bind, Filter.testOf,
        if_pos hmembership]
      rfl
    · cases hstatement
  · cases hshape

/-! ### From one statement to the next -/

namespace Statement

variable {brought : Statement → Prop} {about : Clause → Prop} {s : Statement}

theorem kind_fresh (kind : StatementKind) : (fresh kind).kind = kind := by
  cases kind <;> rfl

theorem not_contains_fresh (kind : StatementKind) (sub : Statement) :
    ¬ (fresh kind).Contains sub := by
  cases kind <;> exact nofun

theorem grows_pushGroup (habout : about .where) (logic : Logic) {build : Statement → Statement}
    (hbrought : ∀ sub, (build (fresh s.kind)).Contains sub → brought sub) :
    Grows brought about s (s.pushGroup logic build) := by
  refine grows_attempt fun t hstep => ?_
  dsimp only at hstep
  split at hstep
  · cases hstep
  · cases hstep
    refine grows_setFilter habout (s.asksFor_filter.pushGroup (admits_asks _) logic ?_)
    exact fun clause hmem sub hasks => Or.inr (hbrought sub (.condition hmem hasks))

theorem grows_whereSubquery (habout : about .where) (path token : String)
    {build : Query → Except Error Query}
    (hbrought : ∀ q, build .empty = .ok q → ∀ sub ∈ q.statement?, brought sub) :
    Grows brought about s (s.whereSubquery path token build) := by
  refine grows_attempt fun t hstep => ?_
  obtain ⟨condition, hcondition, rfl⟩ := Success.map_eq_ok.mp hstep
  refine grows_pushCondition habout .and fun sub hasks => ?_
  obtain ⟨q, hq, hsub⟩ := exists_of_subqueryCondition hcondition hasks
  exact hbrought q hq sub hsub

theorem grows_setOption (name : String) (json : Json) :
    Grows brought (· ∈ s.kind.clauses) s (s.setOption name json) := by
  refine grows_attempt fun t hstep => ?_
  rw [ClauseCall.clauseOption?_eq] at hstep
  cases hcalls : ClauseCall.ofOption? s.kind name json with
  | none =>
    rw [hcalls, Option.map_none] at hstep
    dsimp only at hstep
    split at hstep
    · cases hstep
    · cases hstep
      exact grows_of_frame rfl rfl
  | some result =>
    rw [hcalls, Option.map_some] at hstep
    obtain ⟨calls, rfl, rfl⟩ := Success.map_eq_ok.mp hstep
    have hplain := ClauseCall.allPlain_ofOption? s.kind name json _ hcalls calls rfl
    refine grows_foldl (fun call hmem s' => ?_) s
    exact (call.grows s').mono (fun sub hsub => absurd hsub ((hplain call hmem).alone sub))
      (hplain call hmem).clause

end Statement

namespace BuilderCall

open Statement

mutual

/-- A call leaves what there is, but for the clauses it is about. -/
theorem grows (s : Statement) (call : BuilderCall) :
    Grows (fun sub => call.Brings sub) (fun clause => call.IsAbout s.kind clause) s
      (call.perform s) := by
  match call with
  | .clause call =>
    rw [perform]
    exact (call.grows s).mono (fun sub hsub => by rwa [Brings]) fun _ => id
  | .option name json =>
    rw [perform]
    exact grows_setOption name json
  | .group logic calls =>
    rw [perform]
    refine grows_pushGroup ?_ logic fun sub hsub => ?_
    · rfl
    rw [Brings]
    exact ((growsAll (fresh s.kind) calls).contains sub hsub).resolve_left (not_contains_fresh _ sub)
  | .subquery path token build =>
    rw [perform]
    refine grows_whereSubquery ?_ path token fun q hq sub hsub => ?_
    · rfl
    rw [Brings]
    exact ⟨q, hq, hsub⟩

theorem growsAll (s : Statement) (calls : List BuilderCall) :
    Grows (fun sub => AnyBrings sub calls) (fun _ => True) s (performAll s calls) := by
  match calls with
  | [] =>
    rw [performAll]
    exact .refl s
  | call :: rest =>
    rw [performAll]
    have hfirst : Grows (fun sub => AnyBrings sub (call :: rest)) (fun _ => True) s
        (call.perform s) := by
      refine (grows s call).mono (fun sub hsub => ?_) fun _ _ => trivial
      rw [AnyBrings]
      exact Or.inl hsub
    have hrest : Grows (fun sub => AnyBrings sub (call :: rest)) (fun _ => True) (call.perform s)
        (performAll (call.perform s) rest) := by
      refine (growsAll (call.perform s) rest).mono (fun sub hsub => ?_) fun _ _ => trivial
      rw [AnyBrings]
      exact Or.inr hsub
    exact hfirst.trans hrest

end

/-! ### The first error -/

theorem error?_attempt {s : Statement} {step : Statement → Except Error Statement}
    {raised? : Option Error} (hok : ∀ t, s.error? = none → step s = .ok t → t.error? = raised?)
    (herror : ∀ e, step s = .error e → raised? = some e) :
    (s.attempt step).error? = s.error?.or raised? := by
  cases hnoted : s.error? with
  | some e => rw [attempt_of_error hnoted, hnoted, Option.some_or]
  | none =>
    cases hstep : step s with
    | ok t => rw [attempt_of_ok hnoted hstep, hok t hnoted hstep, Option.none_or]
    | error e =>
      rw [attempt_of_failure hnoted hstep, error?_recordError_of_none hnoted, herror e hstep,
        Option.none_or]

theorem error?_applyAll (s : Statement) (calls : List ClauseCall) :
    (ClauseCall.applyAll s calls).error? =
      s.error?.or (calls.findSome? (ClauseCall.failure? s.kind)) := by
  induction calls generalizing s with
  | nil => exact Option.or_none.symm
  | cons call rest ih =>
    rw [ClauseCall.applyAll, List.foldl_cons, ← ClauseCall.applyAll, ih, ClauseCall.error?_apply,
      ClauseCall.kind_apply, Option.or_assoc, List.findSome?_cons]
    cases call.failure? s.kind <;> rfl

theorem error?_setOption (s : Statement) (name : String) (json : Json) :
    (s.setOption name json).error? = s.error?.or ((option name json).failure? s.kind) := by
  have hclause := ClauseCall.clauseOption?_eq s name json
  rw [failure?]
  cases hcalls : ClauseCall.ofOption? s.kind name json with
  | none =>
    rw [hcalls, Option.map_none] at hclause
    refine error?_attempt (fun t hnone hstep => ?_) fun e hstep => ?_
    all_goals
      rw [hclause] at hstep
      dsimp only at hstep
      split at hstep
    · cases hstep
    · next hname =>
      cases hstep
      exact hnone.trans (if_neg hname).symm
    · next hname =>
      cases hstep
      exact if_pos hname
    · cases hstep
  | some result =>
    rw [hcalls, Option.map_some] at hclause
    refine error?_attempt (fun t hnone hstep => ?_) fun e hstep => ?_
    all_goals rw [hclause] at hstep
    · obtain ⟨calls, rfl, rfl⟩ := Success.map_eq_ok.mp hstep
      rw [error?_applyAll, hnone, Option.none_or]
    · rw [Success.map_eq_error.mp hstep]

theorem error?_whereSubquery (s : Statement) (path token : String)
    (build : Query → Except Error Query) : (s.whereSubquery path token build).error? =
      s.error?.or (failureOf (subqueryCondition path token build)) := by
  refine error?_attempt (fun t hnone hstep => ?_) fun e hstep => ?_
  · obtain ⟨condition, hcondition, rfl⟩ := Success.map_eq_ok.mp hstep
    rw [andWhere, error?_pushCondition, hnone, failure?_of_subqueryCondition hcondition, hcondition]
    rfl
  · rw [Success.map_eq_error.mp hstep]
    rfl

mutual

theorem error?_perform (s : Statement) (call : BuilderCall) :
    (call.perform s).error? = s.error?.or (call.failure? s.kind) := by
  match call with
  | .clause call =>
    rw [perform, failure?]
    exact call.error?_apply s
  | .option name json =>
    rw [perform]
    exact error?_setOption s name json
  | .group logic calls =>
    have hgroup : (performAll (fresh s.kind) calls).error? = firstFailure? s.kind calls := by
      rw [error?_performAll (fresh s.kind) calls, error?_fresh, kind_fresh, Option.none_or]
    rw [perform, failure?, ← hgroup]
    -- what the new statement has noted when all is done is what the group complains of
    refine error?_attempt (fun t hnone hstep => ?_) fun e hstep => ?_
    all_goals
      dsimp only at hstep
      split at hstep
    · cases hstep
    · next hsub =>
      cases hstep
      exact hnone.trans hsub.symm
    · next hsub =>
      cases hstep
      exact hsub
    · cases hstep
  | .subquery path token build =>
    rw [perform, failure?]
    exact error?_whereSubquery s path token build

/-- After any calls the error of a statement is the one it had, or else the first that was
raised. -/
theorem error?_performAll (s : Statement) (calls : List BuilderCall) :
    (performAll s calls).error? = s.error?.or (firstFailure? s.kind calls) := by
  match calls with
  | [] =>
    rw [performAll, firstFailure?, Option.or_none]
  | call :: rest =>
    rw [performAll, firstFailure?, error?_performAll (call.perform s) rest, error?_perform s call,
      (call.grows s).kind, Option.or_assoc]

end

end BuilderCall

end DocMapper
