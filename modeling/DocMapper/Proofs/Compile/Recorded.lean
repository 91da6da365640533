import DocMapper.Proofs.Compile.Misfits
import DocMapper.Proofs.Compile.Shown
import DocMapper.Proofs.Query.Assembled
/-!
# Errors that were noted come out

A statement on which an error was noted is not compiled, and neither is a statement in which such a
one is written. Written are the sources, the bindings, the candidates of conditions and the changes,
but for the changes of an `UPDATE` that has a whole document instead, and for what is put into a map.
-/

namespace DocMapper

open Compile

namespace Statement

/-! ### What is written -/

/-- A statement holds another where it is written: not among changes that give way to a document,
and not in what is put into a map. -/
inductive Heeds (s sub : Statement) : Prop where
  | source (h : .query sub ∈ s.sources)
  | binding {name : String} (h : (name, .query sub) ∈ s.lets)
  | condition {clause : WhereClause} (hmem : clause ∈ s.conditions) (h : clause.test.Asks sub)
  | change {change : Change} (hmem : change ∈ s.changes) (h : change.term = .query sub)
    (hput : change.kind ≠ .put)
    (hactive : s.kind = .update → s.frame.content = [] ∧ s.frame.merge = [])

/-- A statement is written in another, at some depth, or is the other one itself. -/
def Reaches : Statement → Statement → Prop :=
  Relation.ReflTransGen Heeds

variable {config : Config} {s sub t : Statement}

theorem Heeds.contains (h : s.Heeds sub) : s.Contains sub := by
  cases h with
  | source h => exact .source h
  | binding h => exact .binding h
  | condition hmem h => exact .condition hmem h
  | change hmem h => exact .change hmem h

theorem mem_conditionStatements {clauses : List WhereClause} {clause : WhereClause}
    (hmem : clause ∈ clauses) (h : sub ∈ clause.test.statements) :
    sub ∈ conditionStatements clauses := by
  induction clauses with
  | nil => cases hmem
  | cons first rest ih =>
    obtain ⟨logic, test⟩ := first
    rw [conditionStatements, List.mem_append]
    rcases List.mem_cons.mp hmem with rfl | hlater
    · exact Or.inl h
    · exact Or.inr (ih hlater)

theorem mem_statements_of_asks {test : Test} (h : test.Asks sub) : sub ∈ test.statements := by
  induction h with
  | membership path op => exact List.mem_singleton_self sub
  | member hmem _ ih =>
    rw [Test.statements]
    exact mem_conditionStatements hmem ih

theorem mem_changeStatements_of_term {changes : List Change} {change : Change}
    (hmem : change ∈ changes) (hterm : change.term = .query sub) (hput : change.kind ≠ .put) :
    sub ∈ changeStatements change.kind changes := by
  induction changes with
  | nil => cases hmem
  | cons first rest ih =>
    obtain ⟨other, path, term⟩ := first
    rw [changeStatements]
    rcases List.mem_cons.mp hmem with rfl | hlater
    · obtain rfl : term = .query sub := hterm
      rw [if_pos rfl, if_neg hput]
      exact List.mem_append_left _ (List.mem_singleton_self sub)
    · split
      · exact List.mem_append_right _ (ih hlater)
      · exact ih hlater

/-- What is held in a clause of the kind that takes part is written. -/
theorem mem_written_of_mem {clause : Clause} (hclause : clause ∈ s.kind.clauses)
    (hactive : s.frame.isActive clause = true) (h : sub ∈ s.statementsIn clause) :
    sub ∈ s.written :=
  List.mem_flatMap.mpr ⟨clause, List.mem_filter.mpr ⟨hclause, hactive⟩, h⟩

theorem isActive_of_mem {clause : Clause} (h : clause ∈ [.from, .let, .where]) :
    s.frame.isActive clause = true := by
  simp only [List.mem_cons, List.not_mem_nil, or_false] at h
  unfold Frame.isActive
  rcases h with rfl | rfl | rfl <;>
  · split <;> rfl

theorem isActive_of_ne_update {clause : Clause} (h : s.kind ≠ .update) :
    s.frame.isActive clause = true := by
  unfold Frame.isActive
  split
  · next hkind => exact absurd hkind h
  · rfl

/-- Changes take part if there is no document that they give way to. -/
theorem isActive_clause {kind : ChangeKind}
    (h : s.kind = .update → s.frame.content = [] ∧ s.frame.merge = []) :
    s.frame.isActive kind.clause = true := by
  by_cases hkind : s.kind = .update
  · obtain ⟨hcontent, hmerge⟩ := h hkind
    have hframe : s.frame.kind = .update := hkind
    cases kind <;> simp [Frame.isActive, hframe, ChangeKind.clause, hcontent, hmerge]
  · exact isActive_of_ne_update hkind

/-- In a statement of clauses of its kind, whatever it heeds is written. -/
theorem Heeds.mem_written (h : s.Heeds sub) (htabled : s.Tabled) : sub ∈ s.written := by
  cases h with
  | source h =>
    have hfrom : .from ∈ s.kind.clauses := htabled _ (.source (List.ne_nil_of_mem h))
    exact mem_written_of_mem hfrom (isActive_of_mem (by simp))
      (List.mem_flatMap.mpr ⟨_, h, List.mem_singleton_self sub⟩)
  | binding h =>
    have hlet : .let ∈ s.kind.clauses := htabled _ (.binding (List.ne_nil_of_mem h))
    exact mem_written_of_mem hlet (isActive_of_mem (by simp))
      (List.mem_flatMap.mpr ⟨_, h, List.mem_singleton_self sub⟩)
  | condition hmem h =>
    have hwhere : .where ∈ s.kind.clauses := htabled _ (.condition (List.ne_nil_of_mem hmem))
    exact mem_written_of_mem hwhere (isActive_of_mem (by simp))
      (mem_conditionStatements hmem (mem_statements_of_asks h))
  | @change change hmem h hput hactive =>
    have hsub := mem_changeStatements_of_term hmem h hput
    refine mem_written_of_mem (htabled _ (.change hmem)) (isActive_clause hactive) ?_
    generalize change.kind = kind at hsub hput
    cases kind with
    | put => exact absurd rfl hput
    | set | increment | add | remove => exact hsub

end Statement

/-! ### What succeeds -/

section Renders

variable {α : Type} {config : Config} {subs : List Statement} {m : Compile α}

/-- If the computation succeeds, the statements have been written. -/
def Renders (config : Config) (subs : List Statement) (m : Compile α) : Prop :=
  ∀ r a r', Yields m r a r' → ∀ sub ∈ subs, ∃ text, Rendered config sub text

theorem Exhibits.renders {shows : α → List String → Prop} (h : Exhibits config subs m shows) :
    Renders config subs m := by
  intro r a r' hyields
  obtain ⟨texts, hrendered, -⟩ := h r a r' hyields
  clear h hyields
  induction hrendered with
  | nil => exact nofun
  | cons hfirst _ ih => exact List.forall_mem_cons.mpr ⟨⟨_, hfirst⟩, ih⟩

theorem renders_clauseText (s : Statement) (clause : Clause) :
    Renders config (s.statementsIn clause) (clauseText config s clause) := by
  by_cases hfrom : clause = .from
  · subst hfrom
    have hsources : Exhibits config (s.statementsIn .from) (clauseText config s .from)
        fun _ _ => True :=
      (exhibits_sourceTexts s.sources).map fun _ _ _ => trivial
    exact hsources.renders
  · exact (exhibits_clauseText_of_ne hfrom).renders

theorem renders_mapM {β : Type} {f : β → Compile α} {subsOf : β → List Statement} {items : List β}
    (h : ∀ b ∈ items, Renders config (subsOf b) (f b)) :
    Renders config (items.flatMap subsOf) (items.mapM f) := by
  induction items with
  | nil => exact fun _ _ _ _ => nofun
  | cons b rest ih =>
    obtain ⟨hfirst, hlater⟩ := List.forall_mem_cons.mp h
    intro r results r' hyields sub hmem
    obtain ⟨a, mid, later, hb, hrest, rfl⟩ := yields_mapM_cons.mp hyields
    rw [List.flatMap_cons, List.mem_append] at hmem
    exact hmem.elim (hfirst _ _ _ hb sub) (ih hlater _ _ _ hrest sub)

/-- A statement is written only if no error was noted on it, and if the statements written in it
are. -/
theorem of_rendered {s : Statement} {text : String} (h : Rendered config s text) :
    s.error? = none ∧ ∀ sub ∈ s.written, ∃ text, Rendered config sub text := by
  obtain ⟨r, r', hyields⟩ := h
  obtain ⟨hnone, texts, hclauses, -⟩ := yields_statementText.mp hyields
  exact ⟨hnone, renders_mapM (fun clause _ => renders_clauseText s clause) _ texts _ hclauses⟩

end Renders

namespace Statement

variable {config : Config} {s t : Statement}

theorem error?_of_rendered (hreaches : s.Reaches t) (htabled : s.Everywhere Tabled) {text : String}
    (h : Rendered config s text) : t.error? = none := by
  -- from the outside in: a statement with a text has given one to what is written in it
  induction hreaches using Relation.ReflTransGen.head_induction_on generalizing text with
  | refl => exact (of_rendered h).1
  | head hheeds _ ih =>
    obtain ⟨inner, hinner⟩ := (of_rendered h).2 _ (hheeds.mem_written htabled.self)
    exact ih (htabled.inner hheeds.contains) hinner

/-- No error is swallowed. A compilation fails if an error was noted on the statement or on any that
is written in it, at whatever depth, and what it fails with is such an error or a value that does
not fit. The error noted on a statement is the first one that its calls have raised. -/
theorem noted_errors_surface :
    (∀ (config : Config) (params : Fields Value) (s t : Statement), s.Assembled → s.Reaches t →
      t.error? ≠ none → ∃ e, s.compileWith config params = .error e ∧ s.Blames e) ∧
    ∀ (s : Statement) (calls : List BuilderCall),
      (BuilderCall.performAll s calls).error? =
        s.error?.or (BuilderCall.firstFailure? s.kind calls) := by
  refine ⟨fun config params s t hassembled hreaches hnoted => ?_, BuilderCall.error?_performAll⟩
  have htabled := hassembled.tabled
  cases hcompile : s.compileWith config params with
  | ok sql =>
    obtain ⟨registry, hyields, -⟩ := compileWith_eq_ok hcompile
    exact absurd (error?_of_rendered hreaches htabled ⟨_, registry, hyields⟩) hnoted
  | error e =>
    refine ⟨e, rfl, ?_⟩
    rcases Success.bind_eq_error.mp hcompile with hrun | ⟨⟨text, registry⟩, -, hpure⟩
    · exact failsWith_statementText htabled _ e hrun
    · cases hpure

/-- A `SELECT` with an operator that there is not. -/
def broken : Statement :=
  (select.setSource (.target "User")).pushCondition .and (.ofComparison "a" "~~" (.int 1))

/-- A `SELECT` that asks for what the broken one finds. -/
def asking : Statement :=
  (select.setSource (.target "Post")).pushCondition .and
    (.compare "author" Operator.isIn.code (.query broken))

/-- What asks for the broken statement. -/
def askingBroken : WhereClause :=
  ⟨.and, .membership "author" .isIn (.query broken)⟩

theorem conditions_asking : asking.conditions = [askingBroken] := rfl

theorem assembled_from (target : String) : (select.setSource (.target target)).Assembled :=
  (Assembled.selectOf []).apply (.setSource (.target target))
    (ClauseCall.plain_of_mem rfl (by decide) fun _ => nofun)

theorem assembled_broken : broken.Assembled :=
  (assembled_from "User").apply (.pushCondition .and (.ofComparison "a" "~~" (.int 1)))
    (ClauseCall.plain_of_mem rfl (by decide) fun _ => nofun)

/-- The error lies two statements deep. Of two calls that fail, one of them in a group, the first is
told. -/
theorem noted_errors_surface_nested :
    let s := (updateAll ["#5:1"]).addChange .set "post" (.query asking)
    let misspelt := ClauseCall.pushCondition .and (.ofComparison "a" "~~" (.int 1))
    let calls := [BuilderCall.group .or [.clause misspelt],
      .clause (.recordError (.invalidArgument "too late"))]
    (∃ e, s.compileWith Config.default [] = .error e ∧ s.Blames e) ∧
      (BuilderCall.performAll select calls).error? = some (.invalidOperator "~~") := by
  intro s misspelt calls
  have hasking : asking.Assembled :=
    (assembled_from "Post").pushQuery (by decide) "author" _ assembled_broken
  have hassembled : s.Assembled :=
    (Assembled.updateAll ["#5:1"]).addQuery .set (by decide) "post" hasking
  have hclause : askingBroken ∈ asking.conditions := by
    rw [conditions_asking]
    exact List.mem_singleton_self _
  have hinner : asking.Heeds broken := .condition hclause (.membership "author" .isIn)
  have houter : s.Heeds asking :=
    .change (List.mem_singleton_self _) rfl nofun fun _ => ⟨rfl, rfl⟩
  have hreaches : s.Reaches broken := .head houter (.single hinner)
  exact ⟨noted_errors_surface.1 Config.default [] s broken hassembled hreaches nofun,
    noted_errors_surface.2 select calls⟩

/-- A document takes the place of the changes, nothing is put into a map but values, and a value
that does not fit may come first. -/
theorem noted_error_lost :
    let replaced := ((updateAll ["#5:1"]).content (.map [("c", .int 3)])).addChange .set "a"
      (.query broken)
    let putting := ((updateAll ["#5:1"]).addChanges .set [("c", .int 3)]).addChange .put "a"
      (.query broken)
    let ages : Schema := ⟨"User", [("age", .ofType .integer)]⟩
    let misfitting := (((select.setSource (.target "User")).setSchema ages).pushCondition .and
      (.ofComparison "age" "=" (.map []))).pushCondition .and
        (.compare "author" Operator.isIn.code (.query broken))
    broken.error? = some (.invalidOperator "~~") ∧
    (replaced.Assembled ∧ replaced.Contains broken ∧
      ∃ sql, replaced.compile Config.default = .ok sql) ∧
    (putting.Assembled ∧ putting.Contains broken ∧
      ∃ sql, putting.compile Config.default = .ok sql) ∧
    (misfitting.Assembled ∧ misfitting.Contains broken ∧
      ∃ failure, misfitting.compile Config.default = .error (.cast failure)) := by
  intro replaced putting ages misfitting
  have hreplaced : replaced.Assembled :=
    ((Assembled.updateAll ["#5:1"]).apply (.content (.map [("c", .int 3)]))
      (ClauseCall.plain_of_mem rfl (by decide) fun _ => nofun)).addQuery .set (by decide) "a"
        assembled_broken
  have hputting : putting.Assembled :=
    ((Assembled.updateAll ["#5:1"]).apply (.addChanges .set [("c", .int 3)])
      (ClauseCall.plain_of_mem rfl (by decide) fun _ => nofun)).addQuery .put (by decide) "a"
        assembled_broken
  have hschema := (assembled_from "User").apply (.setSchema ages) ⟨nofun, fun _ => id⟩
  have hages := hschema.apply (.pushCondition .and (.ofComparison "age" "=" (.map [])))
    (ClauseCall.plain_of_mem rfl (by decide) fun _ => nofun)
  have hmisfitting : misfitting.Assembled :=
    hages.pushQuery (by decide) "author" _ assembled_broken
  have hconditions : misfitting.conditions =
      [⟨.and, .compare "age" .eq (.map [])⟩, askingBroken] := rfl
  have hclause : askingBroken ∈ misfitting.conditions := by
    rw [hconditions]
    exact List.mem_cons_of_mem _ (List.mem_singleton_self _)
  have hcontains : misfitting.Contains broken := .condition hclause (.membership "author" .isIn)
  exact ⟨rfl, ⟨hreplaced, .change (List.mem_singleton_self _) rfl, _, rfl⟩,
    ⟨hputting, .change (List.mem_cons_of_mem _ (List.mem_singleton_self _)) rfl, _, rfl⟩,
    hmisfitting, hcontains, _, rfl⟩

end Statement

end DocMapper
