import DocMapper.Proofs.Compile.Conditions
import DocMapper.Proofs.Compile.Tokens
import DocMapper.Proofs.Query.Meaning
/-!
# What the text of conditions means

The text of conditions that came from `AND` calls, read with the usual precedence, says what was
asked for: the same formula, with the text of each comparison in its place.
-/

namespace DocMapper

open Compile Formula Token

/-- A text that a comparison is written as. -/
def Comparison.Renders (config : Config) (schema? : Option Schema) (comparison : Comparison)
    (text : String) : Prop :=
  ∃ op test r r', Operator.ofToken comparison.token = .ok op ∧
    Filter.testOf comparison.path op (.value comparison.operand) = .ok test ∧
    Yields (testText config schema? test) r text r'

namespace Test

/-- A test that a value is compared by: no sub-statement, no group and no raw text. -/
inductive Plain : Test → Prop where
  | compare (path : String) (op : Operator) (v : Value) : Plain (.compare path op v)
  | null (path : String) (op : Operator) : Plain (.null path op)
  | membership (path : String) (op : Operator) (v : Value) : Plain (.membership path op (.value v))
  | range (path : String) (low high : Value) : Plain (.range path low high)

theorem plain_of_testOf {path : String} {op : Operator} {v : Value} {test : Test}
    (h : Filter.testOf path op (.value v) = .ok test) : test.Plain := by
  rw [Filter.testOf] at h
  unfold Filter.testOfValue at h
  split at h
  · cases h
    exact .null path _
  · split at h
    · cases h
      exact .null path op
    · cases h
      exact .membership path op v
    · split at h
      · cases h
        exact .range path _ _
      · cases h
    · split at h
      · cases h
        exact .compare path op _
      · cases h
        exact .compare path op _

theorem Plain.not_group {test : Test} (h : test.Plain) :
    ∀ params members, test ≠ .group params members := by
  rintro params members rfl
  cases h

/-- Comparisons have no sub-statements, so none of them is void. -/
theorem Means.not_void {config : Config} {test : Test} {f : Formula Comparison}
    (h : test.Means f) : ¬ test.Void config := by
  intro hvoid
  induction hvoid generalizing f with
  | query _ =>
    cases h with
    | single _ htest => cases plain_of_testOf htest
  | group _ _ ih =>
    cases h with
    | single _ htest => cases plain_of_testOf htest
    | group hall hne =>
      cases hall with
      | nil => exact hne rfl
      | cons hfirst _ => exact ih _ List.mem_cons_self hfirst

mutual

/-- What holds of plain tests and of groups with members holds throughout. -/
theorem Means.throughout {p : Test → Prop} (hplain : ∀ test : Test, test.Plain → p test)
    (hgroup : ∀ params members, members ≠ [] → p (.group params members)) {test : Test}
    {f : Formula Comparison} (h : test.Means f) : test.Throughout p := by
  match f, h with
  | .atom _, .single _ htest =>
    have htest := plain_of_testOf htest
    exact throughout_of_single htest.not_group (hplain _ htest)
  | .join logic fs, .group hall hne =>
    refine .intro (hgroup _ _ ?_) ?_
    · rintro rfl
      cases hall
      exact hne rfl
    · intro params members heq
      cases heq
      exact MeansAll.throughout hplain hgroup hall

theorem MeansAll.throughout {p : Test → Prop} (hplain : ∀ test : Test, test.Plain → p test)
    (hgroup : ∀ params members, members ≠ [] → p (.group params members)) {logic : Logic}
    {clauses : List WhereClause} {fs : List (Formula Comparison)}
    (h : MeansAll logic clauses fs) : ∀ clause ∈ clauses, clause.test.Throughout p := by
  match fs, h with
  | [], .nil _ => exact nofun
  | f :: fs, .cons hfirst hrest =>
    exact List.forall_mem_cons.mpr ⟨Means.throughout hplain hgroup hfirst,
      MeansAll.throughout hplain hgroup hrest⟩

end

end Test

section Parts

variable {config : Config} {schema? : Option Schema}

mutual

/-- The part of a test says what the test says, with texts for comparisons. -/
theorem LeavesPart.matches {test : Test} {part : Part} {r r' : Registry} {f : Formula Comparison}
    (h : LeavesPart config schema? test r part r') (hmeans : test.Means f) :
    ∃ g, f.Matches (Comparison.Renders config schema?) g ∧
      ∀ truth, part.formula.Holds truth ↔ g.Holds truth := by
  cases h with
  | @single _ text _ _ hsingle hyields _ =>
    cases hmeans with
    | single hop htest =>
      refine ⟨.atom text, .atom ⟨_, _, r, r', hop, htest, hyields⟩, fun truth => ?_⟩
      rw [Part.formula]
    | group => exact absurd rfl (hsingle _ _)
  | @group params members parts _ _ hparts hne =>
    cases hmeans with
    | single _ htest => cases Test.plain_of_testOf htest
    | group hall _ =>
      obtain ⟨gs, hmatch, hlogic, -, hholds⟩ := hparts.matchAll hall
      refine ⟨.join _ gs, .join hmatch, fun truth => ?_⟩
      rw [Part.formula, Part.holds_rowFormula hne hlogic, hholds]

/-- The parts of conditions say what the conditions say, one by one. -/
theorem Leaves.matchAll {clauses : List WhereClause} {parts : List (Logic × Part)}
    {r r' : Registry} {logic : Logic} {fs : List (Formula Comparison)}
    (h : Leaves config schema? clauses r parts r') (hmeans : Test.MeansAll logic clauses fs) :
    ∃ gs, MatchAll (Comparison.Renders config schema?) fs gs ∧
      (∀ part ∈ parts, part.1 = logic) ∧ (parts = [] ↔ fs = []) ∧
      ∀ truth, (Formula.join logic (parts.map (·.2.formula))).Holds truth ↔
        (Formula.join logic gs).Holds truth := by
  cases h with
  | nil =>
    cases hmeans
    exact ⟨[], .nil, nofun, by simp, fun _ => Iff.rfl⟩
  | @part _ test rest part parts _ _ _ htest hrest =>
    cases hmeans with
    | @cons _ _ _ f fs hfirst hlater =>
      obtain ⟨g, hg, hholds⟩ := htest.matches hfirst
      obtain ⟨gs, hgs, hlogic, -, hall⟩ := hrest.matchAll hlater
      refine ⟨g :: gs, .cons hg hgs, ?_, by simp, fun truth => ?_⟩
      · exact List.forall_mem_cons.mpr ⟨rfl, hlogic⟩
      · have hhead : (Formula.join logic [part.formula]).Holds truth ↔
            (Formula.join logic [g]).Holds truth := by
          rw [holds_join_singleton, holds_join_singleton, hholds]
        exact holds_join_append hhead (hall truth)
  | void hvoid _ _ =>
    cases hmeans with
    | cons hfirst _ => exact absurd hvoid hfirst.not_void

end

end Parts

namespace Statement

/-- Nested connectives: a name, or an age between bounds. -/
def nested : Json :=
  .obj [("$or", .arr [.obj [("name", .str "Ann")],
    .obj [("age", .obj [("$gt", .int 20), ("$lt", .int 30)])]])]

end Statement

end DocMapper
