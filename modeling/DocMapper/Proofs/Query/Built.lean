import DocMapper.Proofs.Success
import DocMapper.Query.Root
/-!
# Conditions as the calls leave them

A group without members is never taken over. So whatever calls have built a statement, every group
among its conditions has members, at every depth.
-/

namespace DocMapper

open Success

/-- A property of a test and of the members of every group in it. -/
inductive Test.Throughout (p : Test → Prop) : Test → Prop where
  | intro {test : Test} (h : p test)
      (hmembers : ∀ params members, test = .group params members →
        ∀ clause ∈ members, Throughout p clause.test) : Throughout p test

namespace Test

variable {p : Test → Prop}

theorem Throughout.self {test : Test} (h : test.Throughout p) : p test := by
  cases h with
  | intro h _ => exact h

theorem Throughout.members {params : Fields Value} {members : List WhereClause}
    (h : (Test.group params members).Throughout p) :
    ∀ clause ∈ members, clause.test.Throughout p := by
  cases h with
  | intro _ hmembers => exact hmembers params members rfl

theorem throughout_of_single {test : Test} (hsingle : ∀ params members, test ≠ .group params members)
    (h : p test) : test.Throughout p :=
  .intro h fun params members heq => absurd heq (hsingle params members)

/-- No group without members. -/
def HasMembers (test : Test) : Prop :=
  ∀ params, test ≠ .group params []

end Test

namespace Filter

/-- A property of every condition of a filter. -/
def All (R : Test → Prop) (filter : Filter) : Prop :=
  ∀ clause ∈ filter.clauses, R clause.test

/-- What is asked of conditions, so that the tests made of them have a property. -/
structure Admits (ask : Condition → Prop) (R : Test → Prop) : Prop where
  compare : ∀ {path token : String} {op : Operator} {operand : Term} {test : Test},
    ask (.compare path token operand) → testOf path op operand = .ok test → R test
  all : ∀ {items : List Condition}, ask (.all items) → ∀ item ∈ items, ask item
  group : ∀ {logic : Logic} {members : List Condition},
    ask (.group logic members) → ∀ member ∈ members, ask member
  raw : ∀ sql : String, R (.raw sql)
  members : ∀ (params : Fields Value) {members : List WhereClause},
    members ≠ [] → (∀ clause ∈ members, R clause.test) → R (.group params members)

section All

variable {ask : Condition → Prop} {R : Test → Prop}

theorem all_empty : All R empty := by
  intro clause hmem
  cases hmem

theorem All.push {filter : Filter} (h : All R filter) (logic : Logic) {test : Test} (htest : R test) :
    All R (filter.push logic test) := by
  intro clause hmem
  rcases List.mem_append.mp hmem with hmem | hmem
  · exact h clause hmem
  · rw [List.mem_singleton.mp hmem]
    exact htest

theorem All.pushGroup (hadmits : Admits ask R) {filter sub : Filter} (h : All R filter)
    (logic : Logic) (hsub : All R sub) : All R (filter.pushGroup logic sub) := by
  rw [Filter.pushGroup]
  split
  · exact h
  · next hne =>
    have hnil : sub.clauses ≠ [] := fun heq => hne (by rw [heq]; rfl)
    exact h.push logic (hadmits.members sub.params hnil hsub)

mutual

/-- The tests made of conditions keep the property, at whatever depth they are made. -/
theorem All.add (hadmits : Admits ask R) {logic : Logic} {filter filter' : Filter}
    (h : All R filter) {condition : Condition} (hask : ask condition)
    (hadd : add logic filter condition = .ok filter') : All R filter' := by
  cases condition with
  | compare path token operand =>
    simp only [Filter.add, bind_eq_ok, pure_eq_ok] at hadd
    obtain ⟨op, -, test, htest, rfl⟩ := hadd
    exact h.push logic (hadmits.compare hask htest)
  | all items =>
    rw [Filter.add] at hadd
    exact All.addAll hadmits h (hadmits.all hask) hadd
  | group inner members =>
    simp only [Filter.add, bind_eq_ok, pure_eq_ok] at hadd
    obtain ⟨sub, hsub, rfl⟩ := hadd
    exact h.pushGroup hadmits logic (All.addMembers hadmits all_empty (hadmits.group hask) hsub)
  | raw sql params =>
    rw [Filter.add] at hadd
    cases hadd
    have hmerged : All R { filter with params := Fields.merge filter.params params } := h
    exact hmerged.push logic (hadmits.raw sql)
  | invalid e =>
    rw [Filter.add] at hadd
    cases hadd

theorem All.addAll (hadmits : Admits ask R) {logic : Logic} {filter filter' : Filter}
    (h : All R filter) {items : List Condition} (hask : ∀ item ∈ items, ask item)
    (hadd : addAll logic filter items = .ok filter') : All R filter' := by
  cases items with
  | nil =>
    rw [Filter.addAll] at hadd
    cases hadd
    exact h
  | cons item rest =>
    obtain ⟨hitem, hlater⟩ := List.forall_mem_cons.mp hask
    simp only [Filter.addAll, bind_eq_ok] at hadd
    obtain ⟨mid, hfirst, hrest⟩ := hadd
    exact All.addAll hadmits (All.add hadmits h hitem hfirst) hlater hrest

theorem All.addMembers (hadmits : Admits ask R) {logic : Logic} {filter filter' : Filter}
    (h : All R filter) {members : List Condition} (hask : ∀ member ∈ members, ask member)
    (hadd : addMembers logic filter members = .ok filter') : All R filter' := by
  match members with
  | [] =>
    rw [Filter.addMembers] at hadd
    cases hadd
    exact h
  | .all items :: rest =>
    obtain ⟨hmember, hlater⟩ := List.forall_mem_cons.mp hask
    have hitems := hadmits.all hmember
    rw [Filter.addMembers] at hadd
    split at hadd
    · simp only [bind_eq_ok, pure_eq_ok, exists_eq_left'] at hadd
      obtain ⟨sub, hsub, hrest⟩ := hadd
      have hmid := h.pushGroup hadmits logic (All.addMembers hadmits all_empty hitems hsub)
      exact All.addMembers hadmits hmid hlater hrest
    · simp only [bind_eq_ok] at hadd
      obtain ⟨mid, hfirst, hrest⟩ := hadd
      exact All.addMembers hadmits (All.addAll hadmits h hitems hfirst) hlater hrest
  | .compare path token operand :: rest
  | .group inner members :: rest
  | .raw sql params :: rest
  | .invalid e :: rest =>
    obtain ⟨hmember, hlater⟩ := List.forall_mem_cons.mp hask
    simp only [Filter.addMembers, bind_eq_ok] at hadd
    obtain ⟨mid, hfirst, hrest⟩ := hadd
    exact All.addMembers hadmits (All.add hadmits h hmember hfirst) hlater hrest

end

end All

/-- Every group has members, at every depth. -/
def Filled (filter : Filter) : Prop :=
  ∀ clause ∈ filter.clauses, clause.test.Throughout Test.HasMembers

theorem single_of_testOf {path : String} {op : Operator} {operand : Term} {test : Test}
    (h : testOf path op operand = .ok test) :
    ∀ params members, test ≠ .group params members := by
  rintro params members rfl
  cases operand with
  | query s =>
    rw [testOf] at h
    split at h <;> cases h
  | value v =>
    rw [testOf] at h
    unfold testOfValue at h
    split at h
    · cases h
    · split at h
      · cases h
      · cases h
      · split at h <;> cases h
      · split at h <;> cases h

theorem hasMembers_of_single {test : Test} (h : ∀ params members, test ≠ .group params members) :
    test.Throughout Test.HasMembers :=
  Test.throughout_of_single h fun params => h params []

theorem admits_hasMembers : Admits (fun _ => True) (Test.Throughout Test.HasMembers) where
  compare _ htest := hasMembers_of_single (single_of_testOf htest)
  all _ _ _ := trivial
  group _ _ _ := trivial
  raw _ := hasMembers_of_single nofun
  members params members hne hmembers := by
    refine .intro ?_ ?_
    · intro params' heq
      exact hne (Test.group.inj heq).2
    · intro params' members' heq
      cases heq
      exact hmembers

variable {filter filter' sub : Filter}

theorem Filled.pushGroup (h : filter.Filled) (logic : Logic) (hsub : sub.Filled) :
    (filter.pushGroup logic sub).Filled :=
  All.pushGroup admits_hasMembers h logic hsub

theorem Filled.add {logic : Logic} (h : filter.Filled) (condition : Condition)
    (hadd : Filter.add logic filter condition = .ok filter') : filter'.Filled :=
  All.add admits_hasMembers h trivial hadd

end Filter

namespace Statement

theorem setFilter_filter (s : Statement) : s.setFilter s.filter = s := by
  cases s
  rfl

@[simp]
theorem conditions_recordError (s : Statement) (e : Error) :
    (s.recordError e).conditions = s.conditions := by
  rw [recordError]
  cases s.error? <;> rfl

/-- An attempt takes its step, or leaves the conditions alone and an error behind. -/
theorem attempt_cases (s : Statement) (step : Statement → Except Error Statement) :
    (s.error? = none ∧ step s = .ok (s.attempt step)) ∨
      ((s.attempt step).error? ≠ none ∧ (s.attempt step).conditions = s.conditions) := by
  unfold attempt
  cases herror : s.error? with
  | some e => exact Or.inr ⟨by simp [herror], rfl⟩
  | none =>
    cases hstep : step s with
    | ok t => exact Or.inl ⟨rfl, rfl⟩
    | error e =>
      refine Or.inr ⟨?_, conditions_recordError s e⟩
      simp [recordError_error?]

theorem pushCondition_cases (s : Statement) (logic : Logic) (condition : Condition) :
    (s.error? = none ∧
      Filter.add logic s.filter condition = .ok (s.pushCondition logic condition).filter) ∨
    ((s.pushCondition logic condition).error? ≠ none ∧
      (s.pushCondition logic condition).conditions = s.conditions) := by
  refine (attempt_cases s _).imp_left fun ⟨hnone, hstep⟩ => ⟨hnone, ?_⟩
  obtain ⟨filter, hadd, hset⟩ := map_eq_ok.mp hstep
  rw [pushCondition, ← hset]
  exact hadd

theorem pushGroup_cases (s : Statement) (logic : Logic) (build : Statement → Statement) :
    (s.pushGroup logic build).filter = s.filter.pushGroup logic (build (fresh s.kind)).filter ∨
      (s.pushGroup logic build).conditions = s.conditions := by
  refine (attempt_cases s _).imp (fun ⟨_, hstep⟩ => ?_) fun ⟨_, hsame⟩ => hsame
  dsimp only at hstep
  split at hstep
  · cases hstep
  · exact (congrArg filter (Except.ok.inj hstep)).symm

/-- Statements as the calls build them. Conditions come one by one, or as a group that was collected
on a new statement; no other call touches them. -/
inductive Built : Statement → Prop where
  | start {s : Statement} (h : s.conditions = []) : Built s
  | other {s t : Statement} (h : Built s) (hsame : t.conditions = s.conditions) : Built t
  | condition {s : Statement} (h : Built s) (logic : Logic) (condition : Condition) :
    Built (s.pushCondition logic condition)
  | group {s : Statement} (h : Built s) (logic : Logic) (build : Statement → Statement)
    (hbuild : Built (build (fresh s.kind))) : Built (s.pushGroup logic build)

theorem Built.joinBy {s : Statement} (h : s.Built) (logic : Logic) (condition : Condition) :
    (s.joinBy logic condition).Built := by
  cases condition with
  | all items =>
    rw [Statement.joinBy]
    induction items generalizing s with
    | nil => exact h
    | cons item rest ih => exact ih (h.condition logic item)
  | group inner members => exact h.condition .and _
  | compare path token operand => exact h.condition logic _
  | raw sql params => exact h.condition logic _
  | invalid e => exact h.condition logic _

theorem Built.whereSubquery {s : Statement} (h : s.Built) (path token : String)
    (build : Query → Except Error Query) : (s.whereSubquery path token build).Built := by
  rcases attempt_cases s fun s => (subqueryCondition path token build).map s.andWhere with
    ⟨-, hstep⟩ | ⟨-, hsame⟩
  · obtain ⟨condition, -, hwhere⟩ := map_eq_ok.mp hstep
    rw [Statement.whereSubquery, ← hwhere]
    exact h.condition .and condition
  · exact h.other hsame

theorem filled_of_conditions_eq {s t : Statement} (hsame : t.conditions = s.conditions)
    (h : s.filter.Filled) : t.filter.Filled := by
  rw [Filter.Filled, filter, hsame]
  exact h

/-- Every group among the conditions has members, at every depth. -/
theorem Built.filled {s : Statement} (h : s.Built) : s.filter.Filled := by
  induction h with
  | start hnil =>
    intro clause hmem
    simp [filter, hnil] at hmem
  | other _ hsame ih => exact filled_of_conditions_eq hsame ih
  | @condition s _ logic condition ih =>
    rcases pushCondition_cases s logic condition with ⟨-, hadd⟩ | ⟨-, hsame⟩
    · exact ih.add condition hadd
    · exact filled_of_conditions_eq hsame ih
  | @group s _ logic build _ ih ihbuild =>
    rcases pushGroup_cases s logic build with hgroup | hsame
    · rw [hgroup]
      exact ih.pushGroup logic ihbuild
    · exact filled_of_conditions_eq hsame ih

end Statement

end DocMapper
