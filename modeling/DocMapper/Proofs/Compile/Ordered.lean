import DocMapper.Proofs.Compile.Fragments
import DocMapper.Proofs.Query.Made
/-!
# Whole statements bind in the order of their text

The clauses of a statement are written one after the other, and its sub-statements inside them. A
clause without text is left out, and so is a statement of a single clause. That one is the clause
the statement begins with, in which nothing is bound, so nothing that was bound is ever left out.
-/

namespace DocMapper

open Compile Inline

/-- The clause that a statement begins with. -/
def StatementKind.leading : StatementKind → Clause
  | .select => .select
  | .insert => .insert
  | .update => .update
  | .delete => .delete
  | .traverse => .traverse

theorem Frame.activeClauses_eq (frame : Frame) :
    ∃ rest, frame.activeClauses = frame.kind.leading :: rest := by
  rw [activeClauses]
  cases hkind : frame.kind with
  | select | insert | update | delete | traverse =>
    exact ⟨_, List.filter_cons_of_pos (by simp [isActive, hkind])⟩

/-! ### What is asked of a statement -/

/-- No parameters came with a group. -/
def Test.Unsupplied (test : Test) : Prop :=
  ∀ params members, test = .group params members → params = []

theorem Test.unsupplied_of_single {test : Test}
    (h : ∀ params members, test ≠ .group params members) : test.Throughout Test.Unsupplied :=
  throughout_of_single h fun params members heq => absurd heq (h params members)

/-- Neither the path nor the text of a test has a colon before a letter. -/
def Test.Quiet : Test → Prop
  | .compare path _ _ | .null path _ | .membership path _ _ | .range path _ _ => Inline.Quiet path
  | .group _ _ => True
  | .raw sql => Inline.Quiet sql

instance (test : Test) : Decidable test.Quiet :=
  match test with
  | .compare path _ _ | .null path _ | .membership path _ _ | .range path _ _ =>
    inferInstanceAs (Decidable (Inline.Quiet path))
  | .group _ _ => isTrue trivial
  | .raw sql => inferInstanceAs (Decidable (Inline.Quiet sql))

namespace Statement

/-- An `UPDATE` has a target. -/
def Targeted (s : Statement) : Prop :=
  s.kind = .update → s.frame.targets ≠ []

/-- No parameters came with a statement, a projection or a group of its conditions. -/
structure Unsupplied (s : Statement) : Prop where
  own : s.params = []
  projections : ∀ p ∈ s.frame.projections, p.expression.params = []
  conditions : ∀ clause ∈ s.conditions, clause.test.Throughout Test.Unsupplied

/-- No text that a statement is written from has a colon before a letter. Values in conditions are
not among them: they are bound. -/
structure Quiet (s : Statement) : Prop where
  frame : s.frame.Quiet
  sources : ∀ text, .target text ∈ s.sources → Inline.Quiet text
  names : ∀ entry ∈ s.lets, Inline.Quiet entry.1
  expressions : ∀ entry ∈ s.lets, ∀ text, entry.2 = .expression text → Inline.Quiet text
  conditions : ∀ clause ∈ s.conditions, clause.test.Throughout Test.Quiet
  paths : ∀ change ∈ s.changes, Inline.Quiet change.path
  values : ∀ change ∈ s.changes, ∀ v, change.term = .value v → v.Quiet

structure Fit (s : Statement) : Prop where
  shaped : s.Shaped
  targeted : s.Targeted
  unsupplied : s.Unsupplied
  quiet : s.Quiet

end Statement

/-- A test and the statements in it are fit to be written. -/
structure Test.Fit (test : Test) : Prop where
  unsupplied : test.Throughout Test.Unsupplied
  quiet : test.Throughout Test.Quiet
  asks : ∀ sub, test.Asks sub → sub.Everywhere Statement.Fit

def Source.Fit : Source → Prop
  | .target text => Inline.Quiet text
  | .query s => s.Everywhere Statement.Fit

def LetValue.Fit : LetValue → Prop
  | .expression text => Inline.Quiet text
  | .query s => s.Everywhere Statement.Fit

def Term.Fit : Term → Prop
  | .value v => v.Quiet
  | .query s => s.Everywhere Statement.Fit

theorem Test.Fit.members {params : Fields Value} {members : List WhereClause}
    (h : (Test.group params members).Fit) : ∀ clause ∈ members, clause.test.Fit := by
  intro clause hmem
  refine ⟨h.unsupplied.members clause hmem, h.quiet.members clause hmem, ?_⟩
  intro sub hasks
  exact h.asks sub (.member hmem hasks)

namespace Statement

variable {s : Statement}

theorem fit_sources (h : s.Everywhere Fit) : ∀ source ∈ s.sources, source.Fit := by
  intro source hmem
  cases source with
  | target text => exact h.self.quiet.sources text hmem
  | query sub => exact h.inner (.source hmem)

theorem fit_lets (h : s.Everywhere Fit) :
    ∀ entry ∈ s.lets, Inline.Quiet entry.1 ∧ entry.2.Fit := by
  rintro ⟨name, v⟩ hmem
  refine ⟨h.self.quiet.names _ hmem, ?_⟩
  cases v with
  | expression text => exact h.self.quiet.expressions _ hmem text rfl
  | query sub => exact h.inner (.binding hmem)

theorem fit_conditions (h : s.Everywhere Fit) : ∀ clause ∈ s.conditions, clause.test.Fit := by
  intro clause hmem
  refine ⟨h.self.unsupplied.conditions clause hmem, h.self.quiet.conditions clause hmem, ?_⟩
  intro sub hasks
  exact h.inner (.condition hmem hasks)

theorem fit_changes (h : s.Everywhere Fit) :
    ∀ change ∈ s.changes, Inline.Quiet change.path ∧ change.term.Fit := by
  rintro ⟨kind, path, term⟩ hmem
  refine ⟨h.self.quiet.paths _ hmem, ?_⟩
  cases term with
  | value v => exact h.self.quiet.values _ hmem v rfl
  | query sub => exact h.inner (.change hmem rfl)

end Statement

/-! ### Clauses without text -/

namespace Fragment

/-- An item is listed unless the text it is made of is empty. -/
theorem flatMap_unless_empty {α : Type} {seen : α → List String} {text : String} {item : α}
    (h : seen item = placeholders text) (items : List α) :
    (if text.isEmpty then items else item :: items).flatMap seen =
      placeholders text ++ items.flatMap seen := by
  split
  · next hempty =>
    rw [String.isEmpty_iff.mp hempty]
    rfl
  · rw [List.flatMap_cons, h]

theorem flatMap_present (clauses : List String) :
    (clauses.filter fun clause => !clause.isEmpty).flatMap placeholders =
      clauses.flatMap placeholders := by
  induction clauses with
  | nil => rfl
  | cons clause rest ih =>
    rw [List.filter_cons, List.flatMap_cons, ← ih]
    split
    · rfl
    · next hempty =>
      have hclause : clause = "" := by simpa using hempty
      rw [hclause]
      rfl

/-- Nothing that was bound is left out if the first clause has text and no placeholder. -/
theorem placeholders_joined {first : String} (hne : first ≠ "") (hquiet : Inline.Quiet first)
    (others : List String) :
    placeholders (joined " " (first :: others)) = (first :: others).flatMap placeholders := by
  unfold joined
  dsimp only
  split
  · next hshort =>
    have hpresent : (others.filter fun clause => !clause.isEmpty) = [] := by
      rw [List.filter_cons_of_pos (by simpa using hne), List.length_cons] at hshort
      exact List.eq_nil_of_length_eq_zero (by omega)
    have hothers : others.flatMap placeholders = [] := by
      rw [← flatMap_present others, hpresent]
      rfl
    rw [List.flatMap_cons, hothers, quiet_iff.mp hquiet]
    rfl
  · calc
      placeholders (" ".intercalate ((first :: others).filter fun clause => !clause.isEmpty)) =
          ((first :: others).filter fun clause => !clause.isEmpty).flatMap placeholders :=
        parts_blank.intercalate _
      _ = (first :: others).flatMap placeholders := flatMap_present _

end Fragment

/-! ### Statements -/

section Statements

variable {config : Config}

theorem plainClause_leading_ne_empty {s : Statement} (hshaped : s.Shaped) (htargeted : s.Targeted)
    (hkind : s.kind ≠ .select) : s.frame.plainClause s.kind.leading ≠ "" := by
  have hlist : ∀ {keyword : String} {items : List String}, keyword ≠ "" → items ≠ [] →
      Fragment.listClause keyword items ≠ "" := by
    intro keyword items hkeyword hne
    rw [Fragment.listClause, if_neg (by simpa using hne)]
    simp [String.append_eq_empty_iff]
  cases hcase : s.kind with
  | select => exact absurd hcase hkind
  | insert | delete =>
    rw [StatementKind.leading, Frame.plainClause]
    decide
  | traverse => exact hlist (by decide) (hshaped.traverse hcase)
  | update =>
    have hne := htargeted hcase
    rw [StatementKind.leading, Frame.plainClause]
    cases htargets : s.frame.targets with
    | nil => exact absurd htargets hne
    | cons first rest =>
      unfold Fragment.targetClause
      dsimp only
      split <;> simp [String.append_eq_empty_iff]

theorem length_sourceTexts {sources : List Source} {r r' : Registry} {texts : List String}
    (h : Yields (sourceTexts config sources) r texts r') : texts.length ≤ sources.length := by
  induction sources generalizing r texts with
  | nil =>
    obtain ⟨rfl, -⟩ := yields_pure.mp h
    exact Nat.le_refl 0
  | cons source rest ih =>
    cases source with
    | target text =>
      obtain ⟨first, mid, -, hbind⟩ := yields_bind.mp h
      obtain ⟨later, last, hlater, hpure⟩ := yields_bind.mp hbind
      obtain ⟨rfl, rfl⟩ := yields_pure.mp hpure
      exact Nat.succ_le_succ (ih hlater)
    | query sub =>
      obtain ⟨first, mid, -, hbind⟩ := yields_bind.mp h
      obtain ⟨later, last, hlater, hpure⟩ := yields_bind.mp hbind
      obtain ⟨rfl, rfl⟩ := yields_pure.mp hpure
      have hle := ih hlater
      split
      · exact Nat.le_succ_of_le hle
      · exact Nat.succ_le_succ hle

theorem quiet_of_sourceTexts {sources : List Source} (hfit : ∀ source ∈ sources, source.Fit)
    (htargets : ∀ source ∈ sources, ∃ text, source = .target text) {r r' : Registry}
    {texts : List String} (h : Yields (sourceTexts config sources) r texts r') :
    ∀ text ∈ texts, Inline.Quiet text := by
  induction sources generalizing r texts with
  | nil =>
    obtain ⟨rfl, -⟩ := yields_pure.mp h
    exact nofun
  | cons source rest ih =>
    obtain ⟨hfirst, hrest⟩ := List.forall_mem_cons.mp hfit
    obtain ⟨⟨text, rfl⟩, hlaterTargets⟩ := List.forall_mem_cons.mp htargets
    obtain ⟨filled, mid, hfill, hbind⟩ := yields_bind.mp h
    obtain ⟨later, last, hlater, hpure⟩ := yields_bind.mp hbind
    obtain ⟨rfl, rfl⟩ := yields_pure.mp hpure
    exact List.forall_mem_cons.mpr ⟨quiet_of_fill hfirst hfill, ih hrest hlaterTargets hlater⟩

/-- How a clause of a statement is written. -/
def clauseText (config : Config) (s : Statement) (clause : Clause) : Compile String :=
  match clause with
  | .select => Fragment.selectClause s.frame.projections
  | .from => do
    let texts ← sourceTexts config s.sources
    pure (Fragment.targetClause "FROM" s.frame.kind.allowsAddressList texts)
  | .let => do
    let texts ← letTexts config s.lets
    pure (Fragment.commaList texts)
  | .where => do
    let parts ← clauseTexts config s.frame.schema? s.conditions
    let body := Fragment.joinedTests parts
    pure (if body.isEmpty then "" else s.frame.kind.whereKeyword ++ " " ++ body)
  | .content => Fragment.documentClause s.frame.schema? "CONTENT" s.frame.content
  | .merge => Fragment.documentClause s.frame.schema? "MERGE" s.frame.merge
  | other =>
    match other.changeKind? with
    | some kind => do
      let items ← changeTexts config s.frame.schema? kind s.changes
      pure (Fragment.listClause
        (Fragment.changeKeyword config.dialect.putAsNestedSet kind) items)
    | none => pure (s.frame.plainClause other)

theorem statementText_eq (s : Statement) : statementText config s =
    (match s.error? with
    | some e => fail e
    | none => do
      mergeParams s.params
      let clauses ← s.frame.activeClauses.mapM (clauseText config s)
      pure (Fragment.joined config.separator clauses)) := by
  obtain ⟨frame, sources, lets, conditions, changes⟩ := s
  rw [statementText]
  rfl

/-- A statement without an error is written from its clauses, which are written in turn once its
parameters are known. -/
theorem yields_statementText {s : Statement} {r r' : Registry} {text : String} :
    Yields (statementText config s) r text r' ↔ s.error? = none ∧
      ∃ texts, Yields (s.frame.activeClauses.mapM (clauseText config s)) (r.merge s.params)
        texts r' ∧ text = Fragment.joined config.separator texts := by
  rw [statementText_eq]
  cases s.error? with
  | some e => exact iff_of_false not_yields_fail nofun
  | none =>
    simp only [yields_bind, yields_mergeParams, yields_pure, true_and]
    constructor
    · rintro ⟨_, _, rfl, texts, _, htexts, htext, rfl⟩
      exact ⟨texts, htexts, htext.symm⟩
    · rintro ⟨texts, htexts, rfl⟩
      exact ⟨(), _, rfl, texts, _, htexts, rfl, rfl⟩

theorem quiet_changeKeyword (nestedSet : Bool) (kind : ChangeKind) :
    Inline.Quiet (Fragment.changeKeyword nestedSet kind) := by
  unfold Fragment.changeKeyword
  split
  · decide
  · cases kind <;> decide

variable {s : Statement}

/-- A clause binds what can be read in it, if the parts that may hold statements do. -/
theorem writes_clauseText (h : s.Fit) (hfit : ∀ source ∈ s.sources, source.Fit)
    (hsources : Writes (sourceTexts config s.sources) (·.flatMap placeholders))
    (hlets : Writes (letTexts config s.lets) (·.flatMap placeholders))
    (hconditions : Writes (clauseTexts config s.frame.schema? s.conditions)
      (·.flatMap fun part => placeholders part.2))
    (hchanges : ∀ kind, Writes (changeTexts config s.frame.schema? kind s.changes)
      (·.flatMap placeholders)) (clause : Clause) :
    Writes (clauseText config s clause) placeholders := by
  unfold clauseText
  split
  · exact Fragment.writes_selectClause h.quiet.frame.projections h.unsupplied.projections
  · refine hsources.map fun r texts r' hyields =>
      ⟨_, rfl, Fragment.placeholders_targetClause (by decide) _ ?_⟩
    -- of several texts only the first may be written, so the others must bind nothing
    refine h.shaped.sources.imp (fun hone => ?_) fun htargets text hmem => ?_
    · exact Nat.le_trans (length_sourceTexts hyields) hone
    · exact quiet_iff.mp (quiet_of_sourceTexts hfit htargets hyields text hmem)
  · exact hlets.map fun _ texts _ _ => ⟨_, rfl, Fragment.placeholders_commaList texts⟩
  · refine hconditions.map fun _ parts _ _ => ⟨_, rfl, ?_⟩
    have hkeyword : Inline.Quiet s.frame.kind.whereKeyword := by
      cases s.frame.kind <;> decide
    rw [← Fragment.placeholders_joinedTests]
    split
    · next hempty => rw [String.isEmpty_iff.mp hempty]
    · exact Fragment.placeholders_keyword hkeyword _
  · exact Fragment.writes_documentClause (by decide) h.quiet.frame.content
  · exact Fragment.writes_documentClause (by decide) h.quiet.frame.merge
  · split
    · next kind _ =>
      exact (hchanges kind).map fun _ items _ _ =>
        ⟨_, rfl, Fragment.placeholders_listClause (quiet_changeKeyword _ kind) items⟩
    · exact writes_pure (Fragment.placeholders_plainClause h.quiet.frame _)

theorem leading_eq {r r' : Registry} {text : String} (hkind : s.kind ≠ .select)
    (hyields : Yields (clauseText config s s.kind.leading) r text r') :
    text = s.frame.plainClause s.kind.leading := by
  cases hcase : s.kind with
  | select => exact absurd hcase hkind
  | insert | update | delete | traverse =>
    rw [hcase] at hyields
    exact (yields_pure.mp hyields).1.symm

/-- The clause that a statement begins with has text, if there is a target for an `UPDATE`. -/
theorem leading_ne_empty (hshaped : s.Shaped) (htargeted : s.Targeted) {r r' : Registry}
    {text : String} (hyields : Yields (clauseText config s s.kind.leading) r text r') :
    text ≠ "" := by
  by_cases hkind : s.kind = .select
  · rw [hkind] at hyields
    exact Fragment.selectClause_ne_empty (hshaped.select hkind) hyields
  · rw [leading_eq hkind hyields]
    exact plainClause_leading_ne_empty hshaped htargeted hkind

theorem quiet_leading (h : s.Fit) {r r' : Registry} {text : String}
    (hyields : Yields (clauseText config s s.kind.leading) r text r') : Inline.Quiet text := by
  by_cases hkind : s.kind = .select
  · rw [hkind] at hyields
    exact Fragment.quiet_of_selectClause h.quiet.frame.projections hyields
  · rw [leading_eq hkind hyields]
    exact quiet_iff.mpr (Fragment.placeholders_plainClause h.quiet.frame _)

mutual

/-- The names bound for a statement are those that can be read in its text, from left to right. -/
theorem writes_statementText (hseparator : config.separator = " ") (s : Statement)
    (h : s.Everywhere Statement.Fit) : Writes (statementText config s) placeholders := by
  have hfit := h.self
  have hsources := Statement.fit_sources h
  have hlets := Statement.fit_lets h
  have hconditions := Statement.fit_conditions h
  have hchanges := Statement.fit_changes h
  rw [statementText_eq]
  split
  · exact writes_fail _
  · have hclauses : ∀ clause, Writes (clauseText config s clause) placeholders := by
      obtain ⟨frame, sources, lets, conditions, changes⟩ := s
      exact writes_clauseText hfit hsources (writes_sourceTexts hseparator sources hsources)
        (writes_letTexts hseparator lets hlets)
        (writes_clauseTexts hseparator frame.schema? conditions hconditions)
        fun kind => writes_changeTexts hseparator frame.schema? kind changes hchanges
    refine (writes_mergeParams hfit.unsupplied.own).then fun _ _ _ _ => ?_
    refine (writes_mapM fun clause _ => hclauses clause).map fun r texts r' hyields =>
      ⟨_, rfl, ?_⟩
    -- what is left out with a lone clause is only the first one, which has bound nothing
    obtain ⟨rest, hactive⟩ := s.frame.activeClauses_eq
    rw [hactive, yields_mapM_cons] at hyields
    obtain ⟨first, mid, others, hfirst, -, rfl⟩ := hyields
    have hne := leading_ne_empty hfit.shaped hfit.targeted hfirst
    rw [hseparator]
    exact Fragment.placeholders_joined hne (quiet_leading hfit hfirst) others

theorem writes_sourceTexts (hseparator : config.separator = " ") (sources : List Source)
    (h : ∀ source ∈ sources, source.Fit) :
    Writes (sourceTexts config sources) (·.flatMap placeholders) := by
  cases sources with
  | nil => exact writes_pure rfl
  | cons source rest =>
    obtain ⟨hfirst, hrest⟩ := List.forall_mem_cons.mp h
    have hlater := writes_sourceTexts hseparator rest hrest
    cases source with
    | target text =>
      have htext : Writes (fill text) placeholders :=
        (writes_fill text).silent fun _ _ _ hfill => quiet_iff.mp (quiet_of_fill hfirst hfill)
      exact htext.map₂ hlater fun text texts => ⟨_, rfl, rfl⟩
    | query s =>
      refine (writes_statementText hseparator s hfirst).map₂ hlater fun text texts => ⟨_, rfl, ?_⟩
      exact Fragment.flatMap_unless_empty (Fragment.placeholders_parenthesized text) texts

theorem writes_letTexts (hseparator : config.separator = " ") (lets : List (String × LetValue))
    (h : ∀ entry ∈ lets, Inline.Quiet entry.1 ∧ entry.2.Fit) :
    Writes (letTexts config lets) (·.flatMap placeholders) := by
  have hbinding : ∀ {name : String}, Inline.Quiet name → ∀ text,
      placeholders ("LET $" ++ name ++ " = " ++ text) = placeholders text := by
    intro name hname text
    have hlead : Closed "LET $" := by decide
    rw [parts_equals, hlead.before, quiet_iff.mp hname]
    rfl
  match lets with
  | [] => exact writes_pure rfl
  | (name, .expression text) :: rest =>
    obtain ⟨⟨hname, htext⟩, hrest⟩ := List.forall_mem_cons.mp h
    refine (writes_letTexts hseparator rest hrest).map fun _ texts _ _ => ⟨_, rfl, ?_⟩
    rw [List.flatMap_cons, hbinding hname, quiet_iff.mp htext]
    rfl
  | (name, .query s) :: rest =>
    obtain ⟨⟨hname, hs⟩, hrest⟩ := List.forall_mem_cons.mp h
    refine (writes_statementText hseparator s hs).map₂ (writes_letTexts hseparator rest hrest)
      fun text texts => ⟨_, rfl, Fragment.flatMap_unless_empty ?_ texts⟩
    rw [hbinding hname, Fragment.placeholders_parenthesized]

theorem writes_clauseTexts (hseparator : config.separator = " ") (schema? : Option Schema)
    (clauses : List WhereClause) (h : ∀ clause ∈ clauses, clause.test.Fit) :
    Writes (clauseTexts config schema? clauses)
      (·.flatMap fun part => placeholders part.2) := by
  match clauses with
  | [] => exact writes_pure rfl
  | ⟨logic, test⟩ :: rest =>
    obtain ⟨hfirst, hrest⟩ := List.forall_mem_cons.mp h
    exact (writes_testText hseparator schema? test hfirst).map₂
      (writes_clauseTexts hseparator schema? rest hrest) fun text parts =>
        ⟨_, rfl, Fragment.flatMap_unless_empty (by rfl) parts⟩

theorem writes_testText (hseparator : config.separator = " ") (schema? : Option Schema)
    (test : Test) (h : test.Fit) : Writes (testText config schema? test) placeholders := by
  cases test with
  | compare path op v => exact Fragment.writes_compareText h.quiet.self op v
  | null path op =>
    have hnull : placeholders "NULL" = [] := by decide
    exact writes_pure ((Fragment.placeholders_comparison h.quiet.self
      (Fragment.quiet_operator op) "NULL").trans hnull)
  | membership path op operand =>
    exact writes_membershipText hseparator schema? op operand h.quiet.self fun sub heq =>
      h.asks sub (heq ▸ .membership path op)
  | range path low high => exact Fragment.writes_rangeText h.quiet.self low high
  | group params members =>
    refine (writes_mergeParams (h.unsupplied.self params members rfl)).then fun _ _ _ _ => ?_
    refine (writes_clauseTexts hseparator schema? members h.members).map
      fun _ parts _ _ => ⟨_, rfl, ?_⟩
    rw [Fragment.placeholders_parenthesized, Fragment.placeholders_joinedTests]
  | raw sql => exact writes_pure (quiet_iff.mp h.quiet.self)

theorem writes_membershipText (hseparator : config.separator = " ") (schema? : Option Schema)
    {path : String} (op : Operator) (operand : Term) (hpath : Inline.Quiet path)
    (h : ∀ sub, operand = .query sub → sub.Everywhere Statement.Fit) :
    Writes (membershipText config schema? path op operand) placeholders := by
  cases operand with
  | value v => exact Fragment.writes_membershipText hpath op v
  | query s =>
    refine (writes_statementText hseparator s (h s rfl)).map fun _ text _ _ => ⟨_, rfl, ?_⟩
    split
    · next hempty => rw [String.isEmpty_iff.mp hempty]
    · rw [Fragment.placeholders_comparison hpath (Fragment.quiet_operator op),
        Fragment.placeholders_parenthesized]

theorem writes_changeTexts (hseparator : config.separator = " ") (schema? : Option Schema)
    (kind : ChangeKind) (changes : List Change)
    (h : ∀ change ∈ changes, Inline.Quiet change.path ∧ change.term.Fit) :
    Writes (changeTexts config schema? kind changes) (·.flatMap placeholders) := by
  match changes with
  | [] => exact writes_pure rfl
  | ⟨other, path, term⟩ :: rest =>
    obtain ⟨⟨hpath, hterm⟩, hrest⟩ := List.forall_mem_cons.mp h
    have hlater := writes_changeTexts hseparator schema? kind rest hrest
    rw [changeTexts]
    split
    · exact (writes_termTexts hseparator schema? kind term hpath hterm).map₂ hlater
        fun items texts => ⟨_, rfl, List.flatMap_append⟩
    · exact hlater

theorem writes_termTexts (hseparator : config.separator = " ") (schema? : Option Schema)
    (kind : ChangeKind) {path : String} (term : Term) (hpath : Inline.Quiet path)
    (h : term.Fit) : Writes (termTexts config schema? kind path term) (·.flatMap placeholders) := by
  cases term with
  | value v => exact Fragment.writes_valueItems _ kind hpath h
  | query s =>
    rw [termTexts]
    split
    · exact writes_pure rfl
    · refine (writes_statementText hseparator s h).map fun _ text _ _ => ⟨_, rfl, ?_⟩
      split
      · next hempty => rw [String.isEmpty_iff.mp hempty]; rfl
      · rw [List.flatMap_singleton, Fragment.placeholders_assignment hpath,
          Fragment.placeholders_parenthesized]

end

end Statements

end DocMapper
