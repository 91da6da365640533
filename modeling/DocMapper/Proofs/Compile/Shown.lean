import DocMapper.Proofs.Compile.Ordered
/-!
# Sub-queries in the text

The statements inside a statement are written in its clauses, each with text in parentheses of its
own and in the order of the clauses. One without text is left out with the item that is made of it.
Nothing else is known of the text around them.
-/

namespace DocMapper

open Compile

/-! ### Texts in parentheses -/

/-- The text shows others in parentheses, one after the other. -/
inductive Shows : String → List String → Prop where
  | verbatim (text : String) : Shows text []
  | parenthesized (text : String) : Shows ("(" ++ text ++ ")") [text]
  | append {first second : String} {before after : List String} (hfirst : Shows first before)
    (hsecond : Shows second after) : Shows (first ++ second) (before ++ after)

/-- The texts show others in parentheses, those of one text after those of the texts before it. -/
inductive ShowsAll : List String → List String → Prop where
  | nil : ShowsAll [] []
  | cons {text : String} {texts before after : List String} (hfirst : Shows text before)
    (hrest : ShowsAll texts after) : ShowsAll (text :: texts) (before ++ after)

/-- The texts that are written: an empty one is left out. -/
def present (texts : List String) : List String :=
  texts.filter fun text => !text.isEmpty

theorem present_append (first second : List String) :
    present (first ++ second) = present first ++ present second :=
  List.filter_append first second

theorem present_of_empty {text : String} (h : text.isEmpty = true) : present [text] = [] := by
  simp [present, h]

theorem present_of_nonempty {text : String} (h : text.isEmpty = false) :
    present [text] = [text] := by
  simp [present, h]

section Shows

variable {text sep : String} {texts shown : List String}

theorem Shows.after (lead : String) (h : Shows text shown) : Shows (lead ++ text) shown :=
  (Shows.verbatim lead).append h

theorem Shows.before (h : Shows text shown) (tail : String) : Shows (text ++ tail) shown := by
  have happend := h.append (.verbatim tail)
  rwa [List.append_nil] at happend

theorem Shows.eq_nil_of_empty (h : Shows text shown) (hempty : text = "") : shown = [] := by
  induction h with
  | verbatim text => rfl
  | parenthesized text => simp [String.append_eq_empty_iff] at hempty
  | append _ _ ihfirst ihsecond =>
    obtain ⟨hfirst, hsecond⟩ := String.append_eq_empty_iff.mp hempty
    rw [ihfirst hfirst, ihsecond hsecond, List.append_nil]

theorem ShowsAll.verbatim (texts : List String) : ShowsAll texts [] := by
  induction texts with
  | nil => exact .nil
  | cons text rest ih => exact .cons (.verbatim text) ih

theorem ShowsAll.append {others later : List String} (h : ShowsAll texts shown)
    (hothers : ShowsAll others later) : ShowsAll (texts ++ others) (shown ++ later) := by
  induction h with
  | nil => exact hothers
  | cons hfirst _ ih =>
    rw [List.append_assoc]
    exact .cons hfirst ih

theorem ShowsAll.without_empty (h : ShowsAll texts shown) : ShowsAll (present texts) shown := by
  induction h with
  | nil => exact .nil
  | @cons text texts _ _ hfirst _ ih =>
    by_cases hempty : text = ""
    · rw [hfirst.eq_nil_of_empty hempty, hempty]
      exact ih
    · have hkept : present (text :: texts) = text :: present texts :=
        List.filter_cons_of_pos (by simpa using hempty)
      rw [hkept]
      exact .cons hfirst ih

theorem ShowsAll.intercalate (h : ShowsAll texts shown) : Shows (sep.intercalate texts) shown := by
  induction h with
  | nil => exact .verbatim _
  | @cons text texts _ _ hfirst hrest ih =>
    cases texts with
    | nil =>
      cases hrest with
      | nil =>
        rw [String.intercalate_singleton, List.append_nil]
        exact hfirst
    | cons next rest =>
      rw [String.intercalate_cons_cons, String.append_assoc]
      exact hfirst.append (ih.after sep)

/-- An item made of a text is left out with it. -/
theorem ShowsAll.unless_empty {item : String} (h : ShowsAll texts shown)
    (hitem : text.isEmpty = false → Shows item [text]) :
    ShowsAll (if text.isEmpty then texts else item :: texts) (present [text] ++ shown) := by
  cases hempty : text.isEmpty with
  | true =>
    rw [present_of_empty hempty]
    exact h
  | false =>
    rw [present_of_nonempty hempty]
    exact .cons (hitem hempty) h

theorem shows_parenthesized {text : String} (hempty : text.isEmpty = false) :
    Shows (Fragment.parenthesized text) [text] := by
  have hparens : Fragment.parenthesized text = "(" ++ text ++ ")" := by
    simp [Fragment.parenthesized, hempty]
  rw [hparens]
  exact .parenthesized text

end Shows

/-! ### The statements written in a statement -/

def Source.statements : Source → List Statement
  | .target _ => []
  | .query s => [s]

def LetValue.statements : LetValue → List Statement
  | .expression _ => []
  | .query s => [s]

def Term.statements : Term → List Statement
  | .value _ => []
  | .query s => [s]

mutual

def Test.statements : Test → List Statement
  | .membership _ _ operand => operand.statements
  | .group _ members => conditionStatements members
  | _ => []

def conditionStatements : List WhereClause → List Statement
  | [] => []
  | ⟨_, test⟩ :: rest => test.statements ++ conditionStatements rest

end

/-- The statements in the changes of a kind. Into a map no statement is put. -/
def changeStatements (kind : ChangeKind) : List Change → List Statement
  | [] => []
  | ⟨other, _, term⟩ :: rest =>
    if other = kind then
      (if kind = .put then [] else term.statements) ++ changeStatements kind rest
    else changeStatements kind rest

namespace Statement

/-- The statements that are written in a clause. -/
def statementsIn (s : Statement) : Clause → List Statement
  | .from => s.sources.flatMap Source.statements
  | .let => s.lets.flatMap fun entry => entry.2.statements
  | .where => conditionStatements s.conditions
  | .set => changeStatements .set s.changes
  | .increment => changeStatements .increment s.changes
  | .add => changeStatements .add s.changes
  | .remove => changeStatements .remove s.changes
  | _ => []

/-- The statements that are written in a statement, in the order of its clauses. -/
def written (s : Statement) : List Statement :=
  s.frame.activeClauses.flatMap s.statementsIn

end Statement

/-! ### How a computation shows statements -/

section Exhibits

/-- The statement is written as the text, with some parameters known before. -/
def Rendered (config : Config) (s : Statement) (text : String) : Prop :=
  ∃ r r', Yields (statementText config s) r text r'

variable {α β γ : Type} {config : Config} {subs later : List Statement}

/-- A computation writes the statements one after the other, and its result shows them. -/
def Exhibits (config : Config) (subs : List Statement) (m : Compile α)
    (shows : α → List String → Prop) : Prop :=
  ∀ r a r', Yields m r a r' →
    ∃ texts, List.Forall₂ (Rendered config) subs texts ∧ shows a (present texts)

variable {m : Compile α} {n : Compile β} {P : α → List String → Prop}
  {Q : β → List String → Prop} {R : γ → List String → Prop}

theorem exhibits_none (h : ∀ a, P a []) : Exhibits config [] m P :=
  fun _ a _ _ => ⟨[], .nil, h a⟩

theorem exhibits_statement (s : Statement) :
    Exhibits config [s] (statementText config s) fun text shown => shown = present [text] :=
  fun r text r' h => ⟨[text], .cons ⟨r, r', h⟩ .nil, rfl⟩

theorem Exhibits.map (h : Exhibits config subs m P) {f : α → β}
    (hf : ∀ a shown, P a shown → Q (f a) shown) :
    Exhibits config subs (m >>= fun a => pure (f a)) Q := by
  intro r b r' hyields
  obtain ⟨a, mid, hm, hpure⟩ := yields_bind.mp hyields
  obtain ⟨rfl, rfl⟩ := yields_pure.mp hpure
  obtain ⟨texts, hrendered, hshows⟩ := h r a mid hm
  exact ⟨texts, hrendered, hf a _ hshows⟩

theorem Exhibits.both (h : Exhibits config subs m P) (hlater : Exhibits config later n Q)
    {f : α → β → γ}
    (hf : ∀ a b first second, P a first → Q b second → R (f a b) (first ++ second)) :
    Exhibits config (subs ++ later) (m >>= fun a => n >>= fun b => pure (f a b)) R := by
  intro r c r' hyields
  obtain ⟨a, mid, hm, hbind⟩ := yields_bind.mp hyields
  obtain ⟨b, last, hn, hpure⟩ := yields_bind.mp hbind
  obtain ⟨rfl, rfl⟩ := yields_pure.mp hpure
  obtain ⟨first, hfirst, hP⟩ := h r a mid hm
  obtain ⟨second, hsecond, hQ⟩ := hlater mid b last hn
  refine ⟨first ++ second, List.rel_append hfirst hsecond, ?_⟩
  rw [present_append]
  exact hf a b _ _ hP hQ

theorem Exhibits.behind {n : Compile β} (h : Exhibits config subs m P) :
    Exhibits config subs (n >>= fun _ => m) P := by
  intro r a r' hyields
  obtain ⟨_, mid, -, hm⟩ := yields_bind.mp hyields
  exact h mid a r' hm

theorem exhibits_mapM {f : α → Compile String} {subsOf : α → List Statement} {items : List α}
    (h : ∀ a ∈ items, Exhibits config (subsOf a) (f a) Shows) :
    Exhibits config (items.flatMap subsOf) (items.mapM f) ShowsAll := by
  induction items with
  | nil => exact exhibits_none ShowsAll.verbatim
  | cons a rest ih =>
    obtain ⟨hfirst, hrest⟩ := List.forall_mem_cons.mp h
    rw [List.mapM_cons, List.flatMap_cons]
    exact hfirst.both (ih hrest) fun _ _ _ _ => .cons

end Exhibits

/-! ### Clauses -/

section Clauses

variable {config : Config} {schema? : Option Schema}

theorem exhibits_sourceTexts (sources : List Source) :
    Exhibits config (sources.flatMap Source.statements) (sourceTexts config sources) ShowsAll := by
  induction sources with
  | nil => exact exhibits_none ShowsAll.verbatim
  | cons source rest ih =>
    rw [List.flatMap_cons, sourceTexts.eq_def]
    cases source with
    | target text =>
      have hfill : Exhibits config [] (fill text) Shows := exhibits_none Shows.verbatim
      exact hfill.both ih fun _ _ _ _ => .cons
    | query s =>
      refine (exhibits_statement s).both ih ?_
      rintro text texts - later rfl hrest
      exact hrest.unless_empty shows_parenthesized

theorem exhibits_letTexts (lets : List (String × LetValue)) :
    Exhibits config (lets.flatMap fun entry => entry.2.statements) (letTexts config lets)
      ShowsAll := by
  induction lets with
  | nil => exact exhibits_none ShowsAll.verbatim
  | cons entry rest ih =>
    rw [List.flatMap_cons, letTexts.eq_def]
    match entry with
    | (name, .expression text) => exact ih.map fun _ _ hrest => .cons (.verbatim _) hrest
    | (name, .query s) =>
      refine (exhibits_statement s).both ih ?_
      rintro text texts - later rfl hrest
      exact hrest.unless_empty fun hempty => (shows_parenthesized hempty).after _

/-! Conditions are joined by their connectives, which are written before them. -/

theorem shows_joinedTests {parts : List (Logic × String)} {shown : List String}
    (h : ShowsAll (parts.map Prod.snd) shown) : Shows (Fragment.joinedTests parts) shown := by
  have hlater : ∀ {rest : List (Logic × String)} {shown : List String},
      ShowsAll (rest.map Prod.snd) shown →
        ShowsAll (rest.map fun part => part.1.sql ++ " " ++ part.2) shown := by
    intro rest
    induction rest with
    | nil => exact id
    | cons part rest ih =>
      rintro _ (_ | ⟨hfirst, hrest⟩)
      exact .cons (hfirst.after _) (ih hrest)
  cases parts with
  | nil =>
    cases h with
    | nil => exact .verbatim _
  | cons part rest =>
    cases h with
    | cons hfirst hrest => exact ShowsAll.intercalate (.cons hfirst (hlater hrest))

theorem exhibits_membershipText (path : String) (op : Operator) (operand : Term) :
    Exhibits config operand.statements (membershipText config schema? path op operand) Shows := by
  cases operand with
  | value v => exact exhibits_none Shows.verbatim
  | query s =>
    refine (exhibits_statement s).map ?_
    rintro text - rfl
    cases hempty : text.isEmpty with
    | true =>
      rw [present_of_empty hempty]
      exact .verbatim _
    | false =>
      rw [present_of_nonempty hempty]
      exact (shows_parenthesized hempty).after _

theorem shows_group {parts : List (Logic × String)} {shown : List String}
    (h : ShowsAll (parts.map Prod.snd) shown) :
    Shows (Fragment.parenthesized (Fragment.joinedTests parts)) shown := by
  have hbody := shows_joinedTests h
  rw [Fragment.parenthesized]
  split
  · next hempty =>
    rw [hbody.eq_nil_of_empty (by simpa using hempty)]
    exact .verbatim _
  · exact (hbody.after "(").before ")"

mutual

theorem exhibits_clauseTexts (schema? : Option Schema) (clauses : List WhereClause) :
    Exhibits config (conditionStatements clauses) (clauseTexts config schema? clauses)
      fun parts shown => ShowsAll (parts.map Prod.snd) shown := by
  match clauses with
  | [] => exact exhibits_none fun parts => .verbatim _
  | ⟨logic, test⟩ :: rest =>
    rw [clauseTexts.eq_def, conditionStatements]
    refine (exhibits_testText schema? test).both (exhibits_clauseTexts schema? rest) ?_
    intro text parts first later hfirst hrest
    cases hempty : text.isEmpty with
    | true =>
      rw [hfirst.eq_nil_of_empty (by simpa using hempty)]
      exact hrest
    | false => exact .cons hfirst hrest

theorem exhibits_testText (schema? : Option Schema) (test : Test) :
    Exhibits config test.statements (testText config schema? test) Shows := by
  match test with
  | .compare path op v => exact exhibits_none Shows.verbatim
  | .null path op => exact exhibits_none Shows.verbatim
  | .membership path op operand => exact exhibits_membershipText path op operand
  | .range path low high => exact exhibits_none Shows.verbatim
  | .group params members =>
    exact ((exhibits_clauseTexts schema? members).map fun _ _ => shows_group).behind
  | .raw sql => exact exhibits_none Shows.verbatim

end

theorem exhibits_termTexts (kind : ChangeKind) (path : String) (term : Term) :
    Exhibits config (if kind = .put then [] else term.statements)
      (termTexts config schema? kind path term) ShowsAll := by
  rw [termTexts.eq_def]
  cases term with
  | value v =>
    have hnone : (if kind = .put then [] else (Term.value v).statements) = [] := ite_self []
    rw [hnone]
    exact exhibits_none ShowsAll.verbatim
  | query s =>
    dsimp only
    split
    · exact exhibits_none ShowsAll.verbatim
    · refine (exhibits_statement s).map ?_
      rintro text - rfl
      have hitem : ShowsAll (if text.isEmpty then []
            else [Fragment.assignment path (Fragment.parenthesized text)]) (present [text] ++ []) :=
        ShowsAll.nil.unless_empty fun hempty => (shows_parenthesized hempty).after _
      rwa [List.append_nil] at hitem

theorem exhibits_changeTexts (kind : ChangeKind) (changes : List Change) :
    Exhibits config (changeStatements kind changes) (changeTexts config schema? kind changes)
      ShowsAll := by
  induction changes with
  | nil => exact exhibits_none ShowsAll.verbatim
  | cons change rest ih =>
    obtain ⟨other, path, term⟩ := change
    rw [changeTexts.eq_def, changeStatements]
    dsimp only
    split
    · exact (exhibits_termTexts kind path term).both ih fun _ _ _ _ => .append
    · exact ih

theorem ShowsAll.commaList {texts shown : List String} (h : ShowsAll texts shown) :
    Shows (Fragment.commaList texts) shown :=
  h.intercalate

theorem ShowsAll.listClause {texts shown : List String} (h : ShowsAll texts shown)
    (keyword : String) : Shows (Fragment.listClause keyword texts) shown := by
  rw [Fragment.listClause]
  split
  · next hempty =>
    obtain rfl := List.isEmpty_iff.mp hempty
    cases h with
    | nil => exact .verbatim _
  · exact h.commaList.after _

/-- Of several sources none is a statement, and a single one is written. -/
theorem shows_targetClause {texts shown : List String} (h : ShowsAll texts shown)
    (hone : texts.length ≤ 1) (keyword : String) (allowList : Bool) :
    Shows (Fragment.targetClause keyword allowList texts) shown := by
  cases h with
  | nil => exact .verbatim _
  | @cons text rest first later hfirst hrest =>
    cases hrest with
    | nil =>
      rw [List.append_nil, Fragment.targetClause, if_neg (by simp)]
      exact hfirst.after _
    | cons => simp at hone

theorem statements_targets {sources : List Source}
    (h : ∀ source ∈ sources, ∃ text, source = .target text) :
    sources.flatMap Source.statements = [] := by
  refine List.flatMap_eq_nil_iff.mpr fun source hmem => ?_
  obtain ⟨text, rfl⟩ := h source hmem
  rfl

theorem exhibits_from {s : Statement} (h : s.Shaped) :
    Exhibits config (s.statementsIn .from) (clauseText config s .from) Shows := by
  intro r text r' hyields
  obtain ⟨sources, mid, hsources, hpure⟩ := yields_bind.mp hyields
  obtain ⟨rfl, rfl⟩ := yields_pure.mp hpure
  rcases h.sources with hone | htargets
  · obtain ⟨texts, hrendered, hshows⟩ := exhibits_sourceTexts s.sources r sources mid hsources
    exact ⟨texts, hrendered, shows_targetClause hshows
      (Nat.le_trans (length_sourceTexts hsources) hone) _ _⟩
  · have hnone : s.statementsIn .from = [] := statements_targets htargets
    rw [hnone]
    exact ⟨[], .nil, .verbatim _⟩

theorem exhibits_clauseText_of_ne {s : Statement} {clause : Clause} (hne : clause ≠ .from) :
    Exhibits config (s.statementsIn clause) (clauseText config s clause) Shows := by
  cases clause with
  | «from» => exact absurd rfl hne
  | «let» => exact (exhibits_letTexts s.lets).map fun _ _ => ShowsAll.commaList
  | «where» =>
    refine (exhibits_clauseTexts s.frame.schema? s.conditions).map fun parts shown hparts => ?_
    have hbody := shows_joinedTests hparts
    split
    · next hempty =>
      rw [hbody.eq_nil_of_empty (by simpa using hempty)]
      exact .verbatim _
    · exact hbody.after _
  | set => exact (exhibits_changeTexts .set s.changes).map fun _ _ hitems => hitems.listClause _
  | increment =>
    exact (exhibits_changeTexts .increment s.changes).map fun _ _ hitems => hitems.listClause _
  | add => exact (exhibits_changeTexts .add s.changes).map fun _ _ hitems => hitems.listClause _
  | remove =>
    exact (exhibits_changeTexts .remove s.changes).map fun _ _ hitems => hitems.listClause _
  | _ => exact exhibits_none Shows.verbatim

theorem exhibits_clauseText {s : Statement} (h : s.Shaped) (clause : Clause) :
    Exhibits config (s.statementsIn clause) (clauseText config s clause) Shows := by
  by_cases hfrom : clause = .from
  · rw [hfrom]
    exact exhibits_from h
  · exact exhibits_clauseText_of_ne hfrom

/-- The clauses of a statement show the statements in it. -/
theorem exhibits_clauses {s : Statement} (h : s.Shaped) :
    Exhibits config s.written (s.frame.activeClauses.mapM (clauseText config s)) ShowsAll :=
  exhibits_mapM fun clause _ => exhibits_clauseText h clause

end Clauses

/-! ### What is written is contained -/

theorem mem_term_statements {term : Term} {sub : Statement} (h : sub ∈ term.statements) :
    term = .query sub := by
  cases term with
  | value v => cases h
  | query s => rw [List.mem_singleton.mp h]

mutual

theorem asks_of_mem_statements {test : Test} {sub : Statement} (h : sub ∈ test.statements) :
    test.Asks sub := by
  match test with
  | .membership path op operand =>
    obtain rfl := mem_term_statements h
    exact .membership path op
  | .group params members =>
    obtain ⟨clause, hmem, hasks⟩ := asks_of_mem_conditionStatements h
    exact .member hmem hasks

theorem asks_of_mem_conditionStatements {clauses : List WhereClause} {sub : Statement}
    (h : sub ∈ conditionStatements clauses) : ∃ clause ∈ clauses, clause.test.Asks sub := by
  match clauses with
  | ⟨logic, test⟩ :: rest =>
    rw [conditionStatements, List.mem_append] at h
    rcases h with hfirst | hrest
    · exact ⟨_, List.mem_cons_self, asks_of_mem_statements hfirst⟩
    · obtain ⟨clause, hmem, hasks⟩ := asks_of_mem_conditionStatements hrest
      exact ⟨clause, List.mem_cons_of_mem _ hmem, hasks⟩

end

theorem mem_changeStatements {kind : ChangeKind} {changes : List Change} {sub : Statement}
    (h : sub ∈ changeStatements kind changes) : ∃ change ∈ changes, change.term = .query sub := by
  induction changes with
  | nil => cases h
  | cons change rest ih =>
    obtain ⟨other, path, term⟩ := change
    rw [changeStatements] at h
    have hlater : sub ∈ changeStatements kind rest →
        ∃ change ∈ (⟨other, path, term⟩ : Change) :: rest, change.term = .query sub := by
      intro hrest
      obtain ⟨change, hmem, hterm⟩ := ih hrest
      exact ⟨change, List.mem_cons_of_mem _ hmem, hterm⟩
    split at h
    · rcases List.mem_append.mp h with hfirst | hrest
      · split at hfirst
        · cases hfirst
        · exact ⟨_, List.mem_cons_self, mem_term_statements hfirst⟩
      · exact hlater hrest
    · exact hlater h

theorem Statement.contains_of_mem_written {s sub : Statement} (h : sub ∈ s.written) :
    s.Contains sub := by
  obtain ⟨clause, -, hclause⟩ := List.mem_flatMap.mp h
  have hchange : ∀ {kind}, sub ∈ changeStatements kind s.changes → s.Contains sub := by
    intro kind hmem
    obtain ⟨change, hchange, hterm⟩ := mem_changeStatements hmem
    exact .change hchange hterm
  cases clause with
  | «from» =>
    obtain ⟨source, hmem, hsource⟩ := List.mem_flatMap.mp hclause
    cases source with
    | target text => cases hsource
    | query s => exact .source (List.mem_singleton.mp hsource ▸ hmem)
  | «let» =>
    obtain ⟨⟨name, v⟩, hmem, hv⟩ := List.mem_flatMap.mp hclause
    cases v with
    | expression text => cases hv
    | query s => exact .binding (List.mem_singleton.mp hv ▸ hmem)
  | «where» =>
    obtain ⟨condition, hmem, hasks⟩ := asks_of_mem_conditionStatements hclause
    exact .condition hmem hasks
  | set | increment | add | remove => exact hchange hclause
  | _ => cases hclause

end DocMapper
