import DocMapper.Proofs.Query.Built
/-!
# Groups that are given and groups that are built

A group is given as one condition, or it is built by calls on a new statement that is taken over
when they are done. What is given stops at the first member that fails. The calls all follow, but a
statement that has noted an error takes nothing more, so the first error stays here as well. Both
come to the same statement, with the same error if there is one.
-/

namespace DocMapper

/-- Groups of any depth over comparisons and over text with the parameters it needs. The members of
an any group are joined by `OR`, those of an all group by `AND`. -/
inductive Grouping where
  | compare (path token : String) (operand : Term)
  | raw (sql : String) (params : Fields Value)
  | any (members : List Grouping)
  | all (members : List Grouping)

namespace Grouping

mutual

/-- The groups as one condition. -/
def condition : Grouping → Condition
  | .compare path token operand => .compare path token operand
  | .raw sql params => .raw sql params
  | .any members => .group .or (conditions members)
  | .all members => .group .and (conditions members)

def conditions : List Grouping → List Condition
  | [] => []
  | first :: rest => first.condition :: conditions rest

end

mutual

/-- The calls that build the groups: each member of a group is added to the statement made for the
group, by calls that join it the way the group does. -/
def build (logic : Logic) (s : Statement) : Grouping → Statement
  | .compare path token operand => s.pushCondition logic (.compare path token operand)
  | .raw sql params => s.pushCondition logic (.raw sql params)
  | .any members => s.pushGroup logic fun group => buildAll .or group members
  | .all members => s.pushGroup logic fun group => buildAll .and group members

def buildAll (logic : Logic) (s : Statement) : List Grouping → Statement
  | [] => s
  | first :: rest => buildAll logic (first.build logic s) rest

end

def failureOf {α : Type} : Except Error α → Option Error
  | .ok _ => none
  | .error e => some e

mutual

/-- What is wrong with the first comparison that cannot be made, in the order they are written. -/
def failure? : Grouping → Option Error
  | .compare path token operand =>
    failureOf (Operator.ofToken token >>= fun op => Filter.testOf path op operand)
  | .raw _ _ => none
  | .any members | .all members => firstFailure? members

def firstFailure? : List Grouping → Option Error
  | [] => none
  | first :: rest => first.failure?.or (firstFailure? rest)

end

end Grouping

namespace Statement

variable {s : Statement} {step : Statement → Except Error Statement}

theorem attempt_of_error {e : Error} (h : s.error? = some e) : s.attempt step = s := by
  rw [attempt, h]

theorem attempt_of_ok {next : Statement} (h : s.error? = none) (hstep : step s = .ok next) :
    s.attempt step = next := by
  rw [attempt, h]
  dsimp only
  rw [hstep]

theorem attempt_of_failure {e : Error} (h : s.error? = none) (hstep : step s = .error e) :
    s.attempt step = s.recordError e := by
  rw [attempt, h]
  dsimp only
  rw [hstep]

theorem attempt_congr {other : Statement → Except Error Statement} (h : step s = other s) :
    s.attempt step = s.attempt other := by
  rw [attempt, attempt, h]

theorem error?_recordError_of_none {e : Error} (h : s.error? = none) :
    (s.recordError e).error? = some e := by
  rw [recordError_error?, h]
  rfl

theorem error?_fresh (kind : StatementKind) : (fresh kind).error? = none := by
  cases kind <;> rfl

theorem filter_fresh (kind : StatementKind) : (fresh kind).filter = .empty := by
  cases kind <;> rfl

theorem error?_setFilter (s : Statement) (filter : Filter) :
    (s.setFilter filter).error? = s.error? := rfl

/-- What becomes of a statement when its conditions are to be replaced by those of a filter. -/
inductive Becomes (s : Statement) : Except Error Filter → Statement → Prop where
  | taken (filter : Filter) : Becomes s (.ok filter) (s.setFilter filter)
  | failed {e : Error} {next : Statement} (h : next.error? = some e) : Becomes s (.error e) next

theorem Becomes.of_setFilter {filter : Filter} {result : Except Error Filter} {next : Statement}
    (h : (s.setFilter filter).Becomes result next) : s.Becomes result next := by
  cases h with
  | taken later => exact .taken later
  | failed h => exact .failed h

theorem pushCondition_of_error {logic : Logic} {condition : Condition} {e : Error}
    (h : s.error? = some e) : s.pushCondition logic condition = s :=
  attempt_of_error h

theorem pushCondition_of_ok {logic : Logic} {condition : Condition} {filter : Filter}
    (h : s.error? = none) (hadd : Filter.add logic s.filter condition = .ok filter) :
    s.pushCondition logic condition = s.setFilter filter := by
  apply attempt_of_ok h
  rw [hadd]
  rfl

theorem pushCondition_of_failure {logic : Logic} {condition : Condition} {e : Error}
    (h : s.error? = none) (hadd : Filter.add logic s.filter condition = .error e) :
    s.pushCondition logic condition = s.recordError e := by
  apply attempt_of_failure h
  rw [hadd]
  rfl

end Statement

namespace Grouping

open Statement

theorem condition_ne_all (tree : Grouping) (items : List Condition) :
    tree.condition ≠ .all items := by
  intro h
  cases tree <;> cases h

theorem addMembers_nil (logic : Logic) (filter : Filter) :
    Filter.addMembers logic filter (conditions []) = .ok filter := by
  rw [conditions, Filter.addMembers]

/-- A member is never several conditions, so it is added as it is. -/
theorem addMembers_cons (logic : Logic) (filter : Filter) (first : Grouping)
    (rest : List Grouping) :
    Filter.addMembers logic filter (conditions (first :: rest)) =
      Filter.add logic filter first.condition >>= fun next =>
        Filter.addMembers logic next (conditions rest) := by
  rw [conditions, Filter.addMembers]
  exact condition_ne_all first

/-- A group that was built is taken over as the group that was given. -/
theorem pushGroup_eq {logic inner : Logic} {members : List Grouping} (s : Statement)
    (hmembers : (Statement.fresh s.kind).Becomes
      (Filter.addMembers inner .empty (conditions members))
      (buildAll inner (.fresh s.kind) members)) :
    (s.pushGroup logic fun group => buildAll inner group members) =
      s.pushCondition logic (.group inner (conditions members)) := by
  apply attempt_congr
  rw [Filter.add]
  dsimp only
  generalize Filter.addMembers inner .empty (conditions members) = result at *
  generalize buildAll inner (.fresh s.kind) members = sub at *
  cases hmembers with
  | taken filter =>
    rw [error?_setFilter, error?_fresh]
    rfl
  | failed h =>
    rw [h]
    rfl

mutual

/-- To build groups on a statement is to give them to it. -/
theorem build_eq (logic : Logic) (s : Statement) (tree : Grouping) :
    tree.build logic s = s.pushCondition logic tree.condition := by
  match tree with
  | .compare path token operand | .raw sql params => rfl
  | .any members =>
    have hmembers := buildAll_becomes .or (.fresh s.kind) members (error?_fresh s.kind)
    rw [filter_fresh] at hmembers
    exact pushGroup_eq s hmembers
  | .all members =>
    have hmembers := buildAll_becomes .and (.fresh s.kind) members (error?_fresh s.kind)
    rw [filter_fresh] at hmembers
    exact pushGroup_eq s hmembers

theorem buildAll_of_error (logic : Logic) (s : Statement) (members : List Grouping) {e : Error}
    (h : s.error? = some e) : buildAll logic s members = s := by
  match members with
  | [] => rfl
  | first :: rest =>
    rw [buildAll, build_eq logic s first, pushCondition_of_error h]
    exact buildAll_of_error logic s rest h

theorem buildAll_becomes (logic : Logic) (s : Statement) (members : List Grouping)
    (h : s.error? = none) :
    s.Becomes (Filter.addMembers logic s.filter (conditions members))
      (buildAll logic s members) := by
  match members with
  | [] =>
    have htaken : s.Becomes (.ok s.filter) s := setFilter_filter s ▸ .taken s.filter
    rw [addMembers_nil, buildAll]
    exact htaken
  | first :: rest =>
    rw [addMembers_cons, buildAll, build_eq logic s first]
    cases hadd : Filter.add logic s.filter first.condition with
    | error e =>
      have hnoted := error?_recordError_of_none (e := e) h
      rw [pushCondition_of_failure h hadd, buildAll_of_error logic _ rest hnoted]
      exact .failed hnoted
    | ok filter =>
      rw [pushCondition_of_ok h hadd]
      exact (buildAll_becomes logic (s.setFilter filter) rest h).of_setFilter

end

/-! ### What fails first -/

theorem failureOf_bind {α β : Type} {result : Except Error α} {f : α → Except Error β}
    {later : Option Error} (h : ∀ a, failureOf (f a) = later) :
    failureOf (result >>= f) = (failureOf result).or later := by
  cases result with
  | error e => rfl
  | ok a => exact h a

theorem failureOf_bind_pure {α β : Type} (result : Except Error α) (f : α → β) :
    failureOf (result >>= fun a => pure (f a)) = failureOf result := by
  cases result <;> rfl

end Grouping

namespace Condition

mutual

/-- What is wrong with the first comparison that cannot be made, or with what is no condition. -/
def failure? : Condition → Option Error
  | .compare path token operand =>
    Grouping.failureOf (Operator.ofToken token >>= fun op => Filter.testOf path op operand)
  | .all items => firstFailure? items
  | .group _ members => firstFailure? members
  | .raw _ _ => none
  | .invalid e => some e

def firstFailure? : List Condition → Option Error
  | [] => none
  | first :: rest => first.failure?.or (firstFailure? rest)

end

end Condition

namespace Filter

open Grouping

theorem failureOf_compare (logic : Logic) (filter : Filter) (path token : String)
    (operand : Term) : failureOf (add logic filter (.compare path token operand)) =
      failureOf (Operator.ofToken token >>= fun op => testOf path op operand) := by
  rw [add]
  cases Operator.ofToken token with
  | error e => rfl
  | ok op => exact failureOf_bind_pure (testOf path op operand) _

mutual

theorem failureOf_add (logic : Logic) (filter : Filter) (condition : Condition) :
    failureOf (add logic filter condition) = condition.failure? := by
  match condition with
  | .compare path token operand =>
    rw [failureOf_compare, Condition.failure?]
  | .all items =>
    rw [add, Condition.failure?]
    exact failureOf_addAll logic filter items
  | .group inner members =>
    rw [add, Condition.failure?, failureOf_bind_pure]
    exact failureOf_addMembers inner .empty members
  | .raw sql params =>
    rw [add]
    rfl
  | .invalid e =>
    rw [add]
    rfl

theorem failureOf_addAll (logic : Logic) (filter : Filter) (items : List Condition) :
    failureOf (addAll logic filter items) = Condition.firstFailure? items := by
  match items with
  | [] =>
    rw [addAll]
    rfl
  | first :: rest =>
    rw [addAll, failureOf_bind fun next => failureOf_addAll logic next rest,
      failureOf_add logic filter first]
    rfl

/-- A group fails as its members do, whichever of them are groups of their own. -/
theorem failureOf_addMembers (logic : Logic) (filter : Filter) (members : List Condition) :
    failureOf (addMembers logic filter members) = Condition.firstFailure? members := by
  match members with
  | [] =>
    rw [addMembers]
    rfl
  | .all items :: rest =>
    rw [addMembers, Condition.firstFailure?, Condition.failure?]
    split
    · rw [← failureOf_addMembers .and .empty items]
      exact failureOf_bind fun sub => failureOf_addMembers logic (filter.pushGroup logic sub) rest
    · rw [failureOf_bind fun next => failureOf_addMembers logic next rest,
        failureOf_addAll logic filter items]
  | .compare path token operand :: rest
  | .group inner inners :: rest
  | .raw sql params :: rest
  | .invalid e :: rest =>
    rw [addMembers, failureOf_bind fun next => failureOf_addMembers logic next rest,
      failureOf_add logic filter]
    · rfl
    · exact nofun

end

end Filter

theorem Statement.error?_pushCondition (logic : Logic) (s : Statement) (condition : Condition) :
    (s.pushCondition logic condition).error? = s.error?.or condition.failure? := by
  cases herror : s.error? with
  | some e => rw [pushCondition_of_error herror, herror, Option.some_or]
  | none =>
    rw [Option.none_or, ← Filter.failureOf_add logic s.filter condition]
    cases hadd : Filter.add logic s.filter condition with
    | error e =>
      rw [pushCondition_of_failure herror hadd]
      exact error?_recordError_of_none herror
    | ok filter =>
      rw [pushCondition_of_ok herror hadd]
      exact herror

namespace Grouping

open Statement

mutual

theorem failure?_condition (tree : Grouping) : tree.condition.failure? = tree.failure? := by
  match tree with
  | .compare path token operand | .raw sql params => rfl
  | .any members | .all members => exact firstFailure?_conditions members

theorem firstFailure?_conditions (members : List Grouping) :
    Condition.firstFailure? (conditions members) = firstFailure? members := by
  match members with
  | [] => rfl
  | first :: rest =>
    rw [conditions, Condition.firstFailure?, failure?_condition first,
      firstFailure?_conditions rest, firstFailure?]

end

/-- Groups come to the same statement whether they are given or built, and so to the same text and
parameters. The error is the one the statement had before, or else that of the first comparison that
cannot be made. -/
theorem groups_agree (tree : Grouping) (s : Statement) :
    tree.build .and s = s.andWhere tree.condition ∧ tree.build .or s = s.orWhere tree.condition ∧
      ∀ logic, (tree.build logic s).error? = s.error?.or tree.failure? := by
  refine ⟨build_eq .and s tree, build_eq .or s tree, fun logic => ?_⟩
  rw [build_eq, error?_pushCondition, failure?_condition]

/-- An empty group leaves no trace, and the parameters of a text come to the whole statement. -/
example :
    let tree : Grouping := .any [.all [], .all [.raw "size > :least" [("least", .int 3)]]]
    (tree.build .and .select).params = [("least", .int 3)] ∧
      (tree.build .and .select).conditions =
        [⟨.and, .group [("least", .int 3)] [⟨.or, .group [("least", .int 3)]
          [⟨.and, .raw "size > :least"⟩]⟩]⟩] :=
  ⟨rfl, rfl⟩

end Grouping

end DocMapper
