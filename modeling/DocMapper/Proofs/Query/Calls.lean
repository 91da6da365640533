import DocMapper.Proofs.Query.Made
import DocMapper.Query.Root
import DocMapper.Query.Shortcut
/-!
# All calls make statements

The calls that are no step of their own in the definition of a made statement are put together from
such steps. Conditions that are read from plain data hold no statements.
-/

namespace DocMapper

open Success

/-! ### Conditions from plain data -/

namespace Condition

variable {sub : Statement}

theorem not_asks_singleOrAll {items : List Condition} (h : ∀ item ∈ items, ¬ item.Asks sub) :
    ¬ (singleOrAll items).Asks sub := by
  unfold singleOrAll
  split
  · next single => exact h single List.mem_cons_self
  · intro hasks
    cases hasks with
    | item hmem hitem => exact h _ hmem hitem

theorem not_asks_group {logic : Logic} {members : List Condition}
    (h : ∀ member ∈ members, ¬ member.Asks sub) : ¬ (group logic members).Asks sub := by
  intro hasks
  cases hasks with
  | member hmem hmember => exact h _ hmem hmember

mutual

theorem not_asks_forPath (path : String) (v : Value) : ¬ (forPath path v).Asks sub := by
  cases v with
  | map entries =>
    rw [forPath]
    split
    · exact not_asks_singleOrAll (not_asks_forOperators path entries)
    · exact nofun
  | null | bool | int | float | string | dateTime | link | list => exact nofun

theorem not_asks_forOperators (path : String) (entries : List (String × Value)) :
    ∀ item ∈ forOperators path entries, ¬ item.Asks sub := by
  match entries with
  | [] => exact nofun
  | (op, operand) :: rest =>
    unfold forOperators
    refine List.forall_mem_cons.mpr ⟨?_, not_asks_forOperators path rest⟩
    split
    · split
      · exact not_asks_group (not_asks_forEach path _)
      · exact not_asks_group (List.forall_mem_singleton.mpr (not_asks_forPath path operand))
    · exact nofun

theorem not_asks_forEach (path : String) (values : List Value) :
    ∀ item ∈ forEach path values, ¬ item.Asks sub := by
  match values with
  | [] => exact nofun
  | v :: rest =>
    rw [forEach]
    exact List.forall_mem_cons.mpr ⟨not_asks_forPath path v, not_asks_forEach path rest⟩

end

mutual

theorem not_asks_ofValue (v : Value) : ¬ (ofValue v).Asks sub := by
  cases v with
  | map entries =>
    rw [ofValue]
    exact not_asks_singleOrAll (not_asks_ofEntries entries)
  | list items =>
    rw [ofValue]
    exact not_asks_group (not_asks_ofItems items)
  | null | bool | int | float | string | dateTime | link => exact nofun

theorem not_asks_ofEntries (entries : List (String × Value)) :
    ∀ item ∈ ofEntries entries, ¬ item.Asks sub := by
  match entries with
  | [] => exact nofun
  | (key, v) :: rest =>
    unfold ofEntries
    refine List.forall_mem_cons.mpr ⟨?_, not_asks_ofEntries rest⟩
    split
    · split
      · exact not_asks_group (not_asks_ofItems _)
      · exact not_asks_group (List.forall_mem_singleton.mpr (not_asks_ofValue v))
    · exact not_asks_forPath key v

theorem not_asks_ofItems (items : List Value) : ∀ item ∈ ofItems items, ¬ item.Asks sub := by
  match items with
  | [] => exact nofun
  | v :: rest =>
    rw [ofItems]
    exact List.forall_mem_cons.mpr ⟨not_asks_ofValue v, not_asks_ofItems rest⟩

end

end Condition

namespace Statement

/-- What comes out of a step that may fail is made, if anything comes out. -/
def Makes (result : Except Error Statement) : Prop :=
  ∀ s, result = .ok s → s.Made

section Makes

variable {α : Type} {s : Statement}

theorem makes_ok (h : s.Made) : Makes (.ok s) := by
  intro t heq
  cases heq
  exact h

theorem makes_bind {x : Except Error α} {step : α → Except Error Statement}
    (h : ∀ a, Makes (step a)) : Makes (x >>= step) := by
  intro t heq
  obtain ⟨a, -, hstep⟩ := bind_eq_ok.mp heq
  exact h a t hstep

theorem makes_foldlM {step : Statement → α → Except Error Statement}
    (hstep : ∀ s a, s.Made → Makes (step s a)) (items : List α) (h : s.Made) :
    Makes (items.foldlM step s) := by
  induction items generalizing s with
  | nil => exact makes_ok h
  | cons a rest ih =>
    intro t heq
    obtain ⟨mid, hmid, hrest⟩ := bind_eq_ok.mp heq
    exact ih (hstep s a h mid hmid) t hrest

theorem made_foldl {step : Statement → α → Statement} (hstep : ∀ s a, s.Made → (step s a).Made)
    (items : List α) (h : s.Made) : (items.foldl step s).Made := by
  induction items generalizing s with
  | nil => exact h
  | cons a rest ih => exact ih (hstep s a h)

end Makes

/-- The condition of a sub-query asks for the statement that was built, and for no other. -/
theorem exists_of_subqueryCondition {path token : String} {build : Query → Except Error Query}
    {condition : Condition} {sub : Statement}
    (h : subqueryCondition path token build = .ok condition) (hasks : condition.Asks sub) :
    ∃ q, build .empty = .ok q ∧ sub ∈ q.statement? := by
  obtain ⟨op, -, hshape⟩ := bind_eq_ok.mp h
  split at hshape
  · obtain ⟨q, hq, hstatement⟩ := bind_eq_ok.mp hshape
    split at hstatement
    · next inner hinner =>
      cases hstatement
      cases hasks
      exact ⟨q, hq, hinner⟩
    · cases hstatement
  · cases hshape

namespace Made

variable {s : Statement}

theorem recordError (h : s.Made) (e : Error) : (s.recordError e).Made := by
  rw [recordError_eq_withFrame]
  exact h.withFrame _ ⟨rfl, id, id⟩

theorem attempt (h : s.Made) {step : Statement → Except Error Statement}
    (hstep : Makes (step s)) : (s.attempt step).Made := by
  rw [Statement.attempt]
  split
  · exact h
  · split
    · next t heq => exact hstep t heq
    · exact h.recordError _

theorem setSchema (h : s.Made) (schema : Schema) : (s.setSchema schema).Made :=
  h.withFrame _ ⟨rfl, id, id⟩

theorem addProjections (h : s.Made) (projections : List Projection) :
    (s.addProjections projections).Made := by
  unfold Statement.addProjections
  split
  · exact h
  · next hne => exact h.withFrame _ (keeps_extend s.frame (by simpa using hne))

theorem setTarget (h : s.Made) (text : String) : (s.setSource (.target text)).Made :=
  h.setSource _ nofun

theorem setReturn (h : s.Made) (clause : ReturnClause) : (s.setReturn clause).Made :=
  h.withFrame _ ⟨rfl, id, id⟩

theorem returnMode (h : s.Made) (mode : String) (expression? : Option String) :
    (s.returnMode mode expression?).Made := by
  unfold Statement.returnMode
  split
  · exact h.setReturn _
  · exact h.recordError _

/-! ### Changes -/

theorem addChanges (h : s.Made) (kind : ChangeKind) (pairs : List (String × Value)) :
    (s.addChanges kind pairs).Made := by
  have hfold : s.addChanges kind pairs =
      pairs.foldl (fun s pair => s.addChange kind pair.1 (.value pair.2)) s := by
    clear h
    induction pairs generalizing s with
    | nil =>
      obtain ⟨frame, sources, lets, conditions, changes⟩ := s
      simp [Statement.addChanges]
    | cons pair rest ih =>
      rw [List.foldl_cons, ← ih]
      simp [Statement.addChanges, Statement.addChange]
  rw [hfold]
  exact made_foldl (fun _ pair h => h.addChange kind pair.1 (.value pair.2) nofun) pairs h

theorem put (h : s.Made) (path : String) (entries : List (String × Value)) :
    (s.put path entries).Made := by
  unfold Statement.put
  split
  · exact h
  · exact h.addChange .put path (.value _) nofun

theorem change (h : s.Made) (kind : ChangeKind) (changes : Fields Value) :
    (s.change kind changes).Made := by
  unfold Statement.change
  split
  · refine made_foldl (fun s entry h => ?_) changes h
    split
    · exact h.put entry.1 _
    · exact h.recordError _
  · exact h.addChanges kind changes

theorem content (h : s.Made) (v : Value) : (s.content v).Made := by
  unfold Statement.content
  split
  · exact h.withFrame _ ⟨rfl, id, id⟩
  · exact h.recordError _

theorem merge (h : s.Made) (v : Value) : (s.merge v).Made := by
  unfold Statement.merge
  split
  · exact h.withFrame _ ⟨rfl, id, id⟩
  · exact h.recordError _

/-! ### Conditions -/

theorem joinBy (h : s.Made) (logic : Logic) {condition : Condition}
    (hcondition : ∀ sub, condition.Asks sub → sub.Made) : (s.joinBy logic condition).Made := by
  cases condition with
  | all items =>
    have hitems : ∀ item ∈ items, ∀ sub, item.Asks sub → sub.Made := fun item hmem sub hasks =>
      hcondition sub (.item hmem hasks)
    rw [Statement.joinBy]
    clear hcondition
    induction items generalizing s with
    | nil => exact h
    | cons item rest ih =>
      obtain ⟨hfirst, hrest⟩ := List.forall_mem_cons.mp hitems
      exact ih (h.pushCondition logic item hfirst) hrest
  | group inner members =>
    refine h.pushCondition .and _ fun sub hasks => ?_
    cases hasks with
    | member hmem hmember => exact hcondition sub (.member hmem hmember)
  | compare path token operand => exact h.pushCondition logic _ hcondition
  | raw sql params => exact h.pushCondition logic _ hcondition
  | invalid e => exact h.pushCondition logic _ hcondition

theorem whereSubquery (h : s.Made) (path token : String) {build : Query → Except Error Query}
    (hbuild : ∀ q, build .empty = .ok q → ∀ sub ∈ q.statement?, sub.Made) :
    (s.whereSubquery path token build).Made := by
  refine h.attempt fun t heq => ?_
  obtain ⟨condition, hcondition, rfl⟩ := map_eq_ok.mp heq
  refine h.pushCondition .and condition fun sub hasks => ?_
  obtain ⟨q, hq, hsub⟩ := exists_of_subqueryCondition hcondition hasks
  exact hbuild q hq sub hsub

/-- A query starts a statement, and gives it its own schema. -/
theorem start (h : s.Made) {q q' : Query} (hstart : q.start s = .ok q') :
    ∀ sub ∈ q'.statement?, sub.Made := by
  unfold Query.start at hstart
  split at hstart
  · cases hstart
  · cases hstart
    rintro sub hsub
    cases hsub
    split
    · exact h.setSchema _
    · exact h

theorem whereComparison (h : s.Made) (path token : String) (v : Value) :
    (s.andWhere (.ofComparison path token v)).Made :=
  h.pushCondition .and (.ofComparison path token v) nofun

theorem whereJson (h : s.Made) (json : Json) : (s.andWhere (.ofJson json)).Made :=
  h.pushCondition .and _ fun _ hasks => absurd hasks (Condition.not_asks_ofValue _)

theorem whereMap (h : s.Made) (conditions : Fields Value) : (s.whereMap conditions).Made := by
  unfold Statement.whereMap
  split
  · exact h
  · refine h.pushCondition .and _ fun sub hasks => ?_
    exact absurd hasks (Condition.not_asks_singleOrAll (Condition.not_asks_ofEntries conditions))

/-! ### Options -/

variable (name : String) (json : Json)

theorem orderOption (h : s.Made) : Makes (s.orderOption name json) := by
  have horder : ∀ (s : Statement) (property direction : String), s.Made →
      (s.orderBy property direction).Made := fun s property direction h =>
    h.withFrame _ ⟨rfl, id, id⟩
  unfold Statement.orderOption
  split
  · exact makes_ok (made_foldl (fun s entry h => horder s _ _ h) _ h)
  · refine makes_bind fun items => makes_ok (made_foldl (fun s item h => ?_) items h)
    unfold orderByItem
    split
    · exact h
    · exact horder s _ _ h
    · exact horder s _ _ h

theorem letOption (h : s.Made) : Makes (s.letOption name json) :=
  makes_bind fun entries => makes_foldlM
    (fun _ entry h => makes_bind fun text => makes_ok (h.bindName entry.1 (.expression text) nofun)) entries h

theorem fetchOption (h : s.Made) : Makes (s.fetchOption name json) :=
  makes_bind fun entries => makes_foldlM
    (fun _ _ h => makes_bind fun _ => makes_ok (h.withFrame _ ⟨rfl, id, id⟩)) entries h

theorem sourceOption (h : s.Made) : Makes (s.sourceOption name json) :=
  makes_bind fun target => makes_ok (h.setTarget target)

theorem lockOption (h : s.Made) : Makes (s.lockOption name json) :=
  makes_bind fun _ => makes_ok (h.withFrame _ ⟨rfl, id, id⟩)

theorem limitOption (h : s.Made) : Makes (s.limitOption name json) :=
  makes_bind fun _ => makes_ok (h.withFrame _ ⟨rfl, id, id⟩)

theorem timeoutOption (h : s.Made) : Makes (s.timeoutOption name json) :=
  makes_bind fun _ => makes_ok (h.withFrame _ ⟨rfl, id, id⟩)

theorem returnOption (h : s.Made) : Makes (s.returnOption name json) :=
  makes_bind fun _ => makes_ok (h.returnMode _ _)

theorem selectOption? (h : s.Made) : ∀ result ∈ s.selectOption? name json, Makes result := by
  unfold Statement.selectOption?
  split
  all_goals rintro result ⟨⟩
  · exact makes_bind fun fields => makes_ok (h.addProjections _)
  · exact h.sourceOption _ json
  · exact h.letOption _ json
  · exact makes_ok (h.whereJson json)
  · exact makes_bind fun _ => makes_ok (h.withFrame _ ⟨rfl, id, id⟩)
  · exact h.orderOption _ json
  · exact makes_bind fun _ => makes_ok (h.withFrame _ ⟨rfl, id, id⟩)
  · exact h.limitOption _ json
  · exact h.fetchOption _ json
  · exact h.timeoutOption _ json
  · exact h.lockOption _ json
  · exact makes_bind fun _ => makes_ok (h.withFrame _ ⟨rfl, id, id⟩)

theorem insertOption? (h : s.Made) : ∀ result ∈ s.insertOption? name json, Makes result := by
  unfold Statement.insertOption?
  split
  all_goals rintro result ⟨⟩
  · exact makes_bind fun _ => makes_ok (h.withFrame _ ⟨rfl, id, id⟩)
  · exact makes_bind fun changes => makes_ok (h.addChanges .set changes)
  · exact h.sourceOption _ json
  · exact makes_bind fun expression => makes_ok (h.setReturn ⟨expression, none⟩)

theorem updateOption? (h : s.Made) : ∀ result ∈ s.updateOption? name json, Makes result := by
  unfold Statement.updateOption?
  split
  · rintro result ⟨⟩
    exact makes_bind fun changes => makes_ok (h.change _ changes)
  · split
    all_goals rintro result ⟨⟩
    · exact makes_bind fun document => makes_ok (h.content _)
    · exact makes_bind fun document => makes_ok (h.merge _)
    · exact makes_bind fun _ => makes_ok (h.withFrame _ ⟨rfl, id, id⟩)
    · exact h.returnOption _ json
    · exact makes_ok (h.whereJson json)
    · exact h.lockOption _ json
    · exact h.limitOption _ json
    · exact h.timeoutOption _ json

theorem deleteOption? (h : s.Made) : ∀ result ∈ s.deleteOption? name json, Makes result := by
  unfold Statement.deleteOption?
  split
  all_goals rintro result ⟨⟩
  · exact h.sourceOption _ json
  · exact h.returnOption _ json
  · exact makes_ok (h.whereJson json)
  · exact h.lockOption _ json
  · exact h.limitOption _ json
  · exact h.timeoutOption _ json

theorem traverseOption? (h : s.Made) : ∀ result ∈ s.traverseOption? name json, Makes result := by
  unfold Statement.traverseOption?
  split
  all_goals rintro result ⟨⟩
  · refine makes_bind fun fields => makes_ok ?_
    split
    · exact h
    · next hne => exact h.withFrame _ ⟨rfl, id, fun _ => by simpa using hne⟩
  · exact h.sourceOption _ json
  · exact makes_ok (h.whereJson json)
  · exact makes_ok (h.whereJson json)
  · exact h.limitOption _ json
  · exact makes_bind fun _ => makes_ok (h.withFrame _ ⟨rfl, id, id⟩)

theorem setOption (h : s.Made) : (s.setOption name json).Made := by
  have hclause : ∀ result ∈ s.clauseOption? name json, Makes result := by
    unfold clauseOption?
    split
    · exact h.selectOption? name json
    · exact h.insertOption? name json
    · exact h.updateOption? name json
    · exact h.deleteOption? name json
    · exact h.traverseOption? name json
  refine h.attempt ?_
  split
  · next result hresult => exact hclause result hresult
  · split
    · exact nofun
    · exact makes_ok (h.withFrame _ ⟨rfl, id, id⟩)

theorem setOptions (h : s.Made) (options : Fields Json) : (s.setOptions options).Made :=
  made_foldl (fun _ option h => h.setOption option.1 option.2) options h

/-! ### Whole statements -/

theorem attach (h : s.Made) (target : ClassRef) : (target.attach s).Made := by
  cases target with
  | named name => exact h
  | ofSchema schema => exact h.setSchema schema

theorem updateOperation (h : s.Made) (operand : Value) : (s.updateOperation name operand).Made := by
  unfold Statement.updateOperation
  split
  · exact h.content operand
  · exact h.merge operand
  · split
    · exact h.recordError _
    · split
      · exact h.change _ _
      · exact h.recordError _

variable (target : ClassRef) (conditions record : Fields Value) (options : Fields Json)

theorem insertInto : (Statement.insertInto target record options).Made := by
  have hinto : ((target.attach Statement.insert).setInto target.className).Made :=
    (Made.insert.attach target).withFrame _ ⟨rfl, id, id⟩
  exact (hinto.addChanges .set record).setOptions options

theorem updateWhere : (Statement.updateWhere target conditions record options).Made := by
  have hstart := (updateAll [(takeAddress target conditions).1]).attach target
  have hwhere := hstart.whereMap (takeAddress target conditions).2
  have hset := hwhere.addChanges .set (record.filter fun entry =>
    !Condition.startsWithDollar entry.1)
  exact (made_foldl (fun _ entry h => h.updateOperation entry.1 entry.2) _ hset).setOptions options

theorem deleteWhere : (Statement.deleteWhere target conditions options).Made :=
  (((Made.delete.attach target).setTarget _).whereMap conditions).setOptions options

theorem selectWhere (projections : List Projection) :
    (Statement.selectWhere target conditions projections options).Made :=
  ((((selectOf projections).attach target).setTarget _).whereMap _).setOptions options

end Made

end Statement

end DocMapper
