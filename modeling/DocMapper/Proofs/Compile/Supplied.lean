import DocMapper.Proofs.Compile.Ordered
import DocMapper.Proofs.Compile.Placeholders
import DocMapper.Proofs.Query.Supplied
/-!
# Which value a supplied parameter has

Projections and sources are filled in with the parameters of the statement. Groups of conditions
bring theirs along once more when they are written, which is later. So a parameter has two values at
most: the one filled in is the last that the statement took, and the one sent along is the last that
a group brings, if any does.
-/

namespace DocMapper

open Compile

namespace Registry

/-- Between two registries these maps are merged, one after the other. Whatever else happens is that
values are bound. -/
inductive Merges (r : Registry) : List (Fields Value) → Registry → Prop where
  | refl : Merges r [] r
  | merge {maps : List (Fields Value)} {mid : Registry} (h : Merges r maps mid)
    (params : Fields Value) : Merges r (maps ++ [params]) (mid.merge params)
  | bind {maps : List (Fields Value)} {mid : Registry} (h : Merges r maps mid) (v : Value) :
    Merges r maps (mid.bind v).2

variable {r mid r' : Registry} {maps more : List (Fields Value)} {name : String}

theorem Merges.trans (h : r.Merges maps mid) (h' : mid.Merges more r') :
    r.Merges (maps ++ more) r' := by
  induction h' with
  | refl => rwa [List.append_nil]
  | merge _ params ih =>
    rw [← List.append_assoc]
    exact ih.merge params
  | bind _ v ih => exact ih.bind v

theorem Merges.stem_eq (h : r.Merges maps r') : r'.stem = r.stem := by
  induction h with
  | refl => rfl
  | merge _ params ih => exact ih
  | bind _ v ih => exact ih

/-- Bindings leave a name alone that is there already, or that is none of the generated ones. -/
theorem Merges.get? (h : r.Merges maps r')
    (hname : Fields.get? r.params name ≠ none ∨ ∀ index, name ≠ nameOf r.stem index) :
    Fields.get? r'.params name = (lastOf? maps name).or (Fields.get? r.params name) := by
  induction h with
  | refl => rfl
  | merge _ params ih =>
    rw [Registry.merge, get?_merge_lastOf?, ih, lastOf?_append, Option.or_assoc]
  | @bind maps mid hmid v ih =>
    have hne : name ≠ nameOf mid.stem mid.nextIndex := by
      rintro rfl
      rcases hname with hthere | hother
      · rw [mid.get?_nextIndex] at ih
        exact hthere (Option.or_eq_none_iff.mp ih.symm).2
      · exact hother mid.nextIndex (by rw [hmid.stem_eq])
    rw [← ih]
    exact Fields.get?_put_of_ne mid.params v hne

end Registry

namespace Compile

variable {α β : Type} {m : Compile α} {f : α → Compile β} {maps more : List (Fields Value)}

/-- A computation merges these maps, and binds. -/
def Brings (m : Compile α) (maps : List (Fields Value)) : Prop :=
  ∀ ⦃r : Registry⦄ ⦃a : α⦄ ⦃r' : Registry⦄, Yields m r a r' → r.Merges maps r'

/-- A computation leaves the parameters alone. -/
def Steady (m : Compile α) : Prop :=
  ∀ ⦃r : Registry⦄ ⦃a : α⦄ ⦃r' : Registry⦄, Yields m r a r' → r = r'

theorem steady_pure (a : α) : Steady (pure a) :=
  fun _ _ _ h => (yields_pure.mp h).2

theorem steady_liftCast (result : Except CastError α) : Steady (liftCast result) :=
  fun _ _ _ h => (yields_liftCast.mp h).2

theorem Steady.bind (hm : Steady m) (hf : ∀ a, Steady (f a)) : Steady (m >>= f) := by
  intro r b r' h
  obtain ⟨a, mid, hfirst, hsecond⟩ := yields_bind.mp h
  exact (hm hfirst).trans (hf a hsecond)

theorem Steady.brings (hm : Steady m) : Brings m [] := by
  intro r a r' h
  obtain rfl := hm h
  exact .refl

theorem Brings.bind (hm : Brings m maps) (hf : ∀ a, Brings (f a) more) :
    Brings (m >>= f) (maps ++ more) := by
  intro r b r' h
  obtain ⟨a, mid, hfirst, hsecond⟩ := yields_bind.mp h
  exact (hm hfirst).trans (hf a hsecond)

/-- What comes after does not merge anything. -/
theorem Brings.only (hm : Brings m maps) (hf : ∀ a, Brings (f a) []) : Brings (m >>= f) maps := by
  have h := hm.bind hf
  rwa [List.append_nil] at h

theorem brings_bindValue (v : Value) : Brings (Compile.bind v) [] := by
  intro r token r' h
  have hbind := yields_bindValue.mp h
  have hstep := (Registry.Merges.refl : r.Merges [] r).bind v
  rwa [hbind] at hstep

theorem brings_mergeParams (params : Fields Value) : Brings (mergeParams params) [params] := by
  intro r _ r' h
  exact yields_mergeParams.mp h ▸ (Registry.Merges.refl : r.Merges [] r).merge params

theorem brings_bindAll (values : List Value) : Brings (bindAll values) [] := by
  induction values with
  | nil => exact (steady_pure []).brings
  | cons v rest ih =>
    exact (brings_bindValue v).only fun _ => ih.only fun _ => (steady_pure _).brings

end Compile

namespace Fragment

variable (schema? : Option Schema) (path : String)

theorem steady_castForQuery (op : Operator) (v : Value) :
    Steady (castForQuery schema? path op v) := by
  cases schema? with
  | none => exact steady_pure v
  | some schema => exact steady_liftCast _

theorem steady_castAt (v : Value) : Steady (castAt schema? path v) := by
  cases schema? with
  | none => exact steady_pure v
  | some schema => exact steady_liftCast _

theorem brings_compareText (op : Operator) (v : Value) :
    Brings (compareText schema? path op v) [] := by
  refine (steady_castForQuery schema? path op v).brings.only fun cast => ?_
  split
  · refine (brings_bindAll _).only fun tokens => ?_
    split <;> exact (steady_pure _).brings
  · exact (brings_bindValue _).only fun _ => (steady_pure _).brings

theorem brings_membershipText (op : Operator) (v : Value) :
    Brings (membershipText schema? path op v) [] := by
  refine (steady_castForQuery schema? path op v).brings.only fun cast => ?_
  split
  · exact (brings_bindAll _).only fun _ => (steady_pure _).brings
  · exact (brings_bindValue _).only fun _ => (steady_pure _).brings

theorem brings_rangeText (low high : Value) : Brings (rangeText schema? path low high) [] := by
  refine (steady_castForQuery schema? path .between _).brings.only fun bounds => ?_
  exact (brings_bindValue _).only fun _ => (brings_bindValue _).only fun _ =>
    (steady_pure _).brings

theorem steady_castRemoved (v : Value) : Steady (castRemoved schema? path v) := by
  unfold castRemoved
  split
  · exact steady_pure v
  · split
    · split
      · exact (steady_liftCast _).bind fun _ => steady_pure _
      · exact steady_liftCast _
    · split
      · exact (steady_liftCast _).bind fun _ => steady_pure _
      · exact steady_liftCast _
    · exact steady_pure v

theorem steady_removeItems (v : Value) : Steady (removeItems schema? path v) := by
  unfold removeItems
  split
  · exact steady_pure _
  · exact (steady_castRemoved schema? path v).bind fun _ => steady_pure _

theorem steady_putItems (nestedSet : Bool) (v : Value) :
    Steady (putItems schema? nestedSet path v) := by
  refine (steady_castAt schema? path v).bind fun cast => ?_
  split <;> exact steady_pure _

theorem steady_valueItems (nestedSet : Bool) (kind : ChangeKind) (v : Value) :
    Steady (valueItems schema? nestedSet kind path v) := by
  unfold valueItems
  split
  · exact steady_removeItems schema? path v
  · exact steady_putItems schema? path nestedSet v
  · exact (steady_castAt schema? path v).bind fun _ => steady_pure _

theorem steady_castEntries (entries : List (String × Value)) :
    Steady (castEntries schema? entries) := by
  induction entries with
  | nil => exact steady_pure []
  | cons entry rest ih =>
    exact (steady_castAt schema? entry.1 entry.2).bind fun _ => ih.bind fun _ => steady_pure _

theorem steady_documentClause (keyword : String) (documents : List (Fields Value)) :
    Steady (documentClause schema? keyword documents) := by
  unfold documentClause
  split
  · exact steady_pure ""
  · exact (steady_castEntries schema? _).bind fun _ => steady_pure _

end Fragment

/-! ### Conditions -/

section Conditions

variable (config : Config) (schema? : Option Schema)

mutual

/-- A test without a sub-query merges the maps in it. -/
theorem brings_testText (test : Test) (h : ∀ sub, ¬ test.Asks sub) :
    Brings (testText config schema? test) test.maps := by
  cases test with
  | compare path op v => exact Fragment.brings_compareText schema? path op v
  | null path op => exact (steady_pure _).brings
  | membership path op operand =>
    cases operand with
    | value v => exact Fragment.brings_membershipText schema? path op v
    | query sub => exact absurd (.membership path op) (h sub)
  | range path low high => exact Fragment.brings_rangeText schema? path low high
  | group params members =>
    have hmembers : ∀ clause ∈ members, ∀ sub, ¬ clause.test.Asks sub :=
      fun clause hmem sub hasks => h sub (.member hmem hasks)
    rw [Test.maps, ← List.singleton_append]
    exact (brings_mergeParams params).bind fun _ =>
      (brings_clauseTexts members hmembers).only fun _ => (steady_pure _).brings
  | raw sql => exact (steady_pure sql).brings

theorem brings_clauseTexts (clauses : List WhereClause)
    (h : ∀ clause ∈ clauses, ∀ sub, ¬ clause.test.Asks sub) :
    Brings (clauseTexts config schema? clauses) (WhereClause.maps clauses) := by
  match clauses with
  | [] => exact (steady_pure []).brings
  | ⟨logic, test⟩ :: rest =>
    obtain ⟨hfirst, hrest⟩ := List.forall_mem_cons.mp h
    exact (brings_testText test hfirst).bind fun _ =>
      (brings_clauseTexts rest hrest).only fun _ => (steady_pure _).brings

end

end Conditions

/-! ### Projections and sources -/

/-- The text of a projection, before parameters are filled in. -/
def Projection.text (p : Projection) : String :=
  match p.label? with
  | some label => p.expression.text ++ " AS " ++ label
  | none => p.expression.text

def Source.target? : Source → Option String
  | .target text => some text
  | .query _ => none

namespace Statement

/-- A statement to which no parameters were supplied, without sub-queries and finished fragments. -/
structure Plain (s : Statement) : Prop where
  own : s.params = []
  conditions : ∀ clause ∈ s.conditions, clause.test.Throughout Test.Unsupplied
  fields : ∀ p ∈ s.frame.projections, ∃ text, p.expression = .field text
  closed : ∀ sub, ¬ s.Contains sub

/-- The projections as they are selected, filled in with some parameters. -/
def selectText (s : Statement) (known : Fields Value) : String :=
  if s.frame.projections.isEmpty then ""
  else "SELECT " ++ Fragment.commaList
    ((s.frame.projections.map fun p => Inline.fill p.text known).filter fun text => !text.isEmpty)

/-- The targets of `FROM`, filled in with some parameters. -/
def fromText (s : Statement) (known : Fields Value) : String :=
  Fragment.targetClause "FROM" s.kind.allowsAddressList
    ((s.sources.filterMap Source.target?).map fun text => Inline.fill text known)

/-- What a clause shows of the parameters that are filled in. -/
structure Inlines (s : Statement) (known : Fields Value) (clause : Clause) (text : String) :
    Prop where
  select : clause = .select → text = s.selectText known
  sources : clause = .from → text = s.fromText known

end Statement

section Clauses

variable {config : Config} {r r' : Registry}

theorem yields_projectionTexts {projections : List Projection} {texts : List String}
    (hfields : ∀ p ∈ projections, ∃ text, p.expression = .field text)
    (h : Yields (Fragment.projectionTexts projections) r texts r') :
    texts = (projections.map fun p => Inline.fill p.text r.params).filter
        (fun text => !text.isEmpty) ∧ r = r' := by
  induction projections generalizing texts r' with
  | nil =>
    obtain ⟨rfl, rfl⟩ := yields_pure.mp h
    exact ⟨rfl, rfl⟩
  | cons p rest ih =>
    obtain ⟨⟨body, hbody⟩, hrest⟩ := List.forall_mem_cons.mp hfields
    obtain ⟨text, mid, hfirst, hbind⟩ := yields_bind.mp h
    obtain ⟨later, last, hlater, hpure⟩ := yields_bind.mp hbind
    have hfill : text = Inline.fill p.text r.params ∧ r = mid := by
      obtain ⟨expression, label?⟩ := p
      obtain rfl : expression = .field body := hbody
      obtain ⟨same, mid', hsame, hfill⟩ := yields_bind.mp hfirst
      obtain ⟨rfl, rfl⟩ := yields_pure.mp hsame
      obtain ⟨rfl, rfl⟩ := yields_fill.mp hfill
      cases label? <;> exact ⟨rfl, rfl⟩
    obtain ⟨rfl, rfl⟩ := hfill
    obtain ⟨rfl, rfl⟩ := ih hrest hlater
    obtain ⟨rfl, rfl⟩ := yields_pure.mp hpure
    refine ⟨?_, rfl⟩
    rw [List.map_cons, List.filter_cons]
    cases (Inline.fill p.text r.params).isEmpty <;> rfl

theorem yields_sourceTexts {sources : List Source} {texts : List String}
    (htargets : ∀ sub, .query sub ∉ sources)
    (h : Yields (sourceTexts config sources) r texts r') :
    texts = (sources.filterMap Source.target?).map (fun text => Inline.fill text r.params) ∧
      r = r' := by
  induction sources generalizing texts r' with
  | nil =>
    obtain ⟨rfl, rfl⟩ := yields_pure.mp h
    exact ⟨rfl, rfl⟩
  | cons source rest ih =>
    have hrest : ∀ sub, .query sub ∉ rest := fun sub hmem =>
      htargets sub (List.mem_cons_of_mem source hmem)
    cases source with
    | query sub => exact absurd List.mem_cons_self (htargets sub)
    | target text =>
      obtain ⟨filled, mid, hfill, hbind⟩ := yields_bind.mp h
      obtain ⟨later, last, hlater, hpure⟩ := yields_bind.mp hbind
      obtain ⟨rfl, rfl⟩ := yields_fill.mp hfill
      obtain ⟨rfl, rfl⟩ := ih hrest hlater
      obtain ⟨rfl, rfl⟩ := yields_pure.mp hpure
      exact ⟨rfl, rfl⟩

theorem steady_letTexts {lets : List (String × LetValue)}
    (h : ∀ name sub, (name, .query sub) ∉ lets) : Steady (letTexts config lets) := by
  induction lets with
  | nil => exact steady_pure []
  | cons entry rest ih =>
    obtain ⟨name, v⟩ := entry
    cases v with
    | query sub => exact absurd List.mem_cons_self (h name sub)
    | expression text =>
      have hrest := ih fun name sub hmem => h name sub (List.mem_cons_of_mem _ hmem)
      exact hrest.bind fun _ => steady_pure _

theorem steady_changeTexts {schema? : Option Schema} {kind : ChangeKind} {changes : List Change}
    (h : ∀ change ∈ changes, ∀ sub, change.term ≠ .query sub) :
    Steady (changeTexts config schema? kind changes) := by
  induction changes with
  | nil => exact steady_pure []
  | cons change rest ih =>
    obtain ⟨hfirst, hrest⟩ := List.forall_mem_cons.mp h
    obtain ⟨other, path, term⟩ := change
    rw [changeTexts]
    split
    · cases term with
      | query sub => exact absurd rfl (hfirst sub)
      | value v =>
        exact (Fragment.steady_valueItems schema? path _ kind v).bind fun _ =>
          (ih hrest).bind fun _ => steady_pure _
    · exact ih hrest

variable {s : Statement}

/-- Only the conditions of a statement concern the parameters. -/
theorem yields_clauseText {clause : Clause} {text : String} (hclause : clause ≠ .where)
    (hfields : ∀ p ∈ s.frame.projections, ∃ text, p.expression = .field text)
    (hclosed : ∀ sub, ¬ s.Contains sub) (h : Yields (clauseText config s clause) r text r') :
    s.Inlines r.params clause text ∧ r = r' := by
  have hother : clause ≠ .select → clause ≠ .from → Steady (clauseText config s clause) →
      s.Inlines r.params clause text ∧ r = r' :=
    fun hselect hfrom hsteady =>
      ⟨⟨fun heq => absurd heq hselect, fun heq => absurd heq hfrom⟩, hsteady h⟩
  cases clause with
  | select =>
    rw [clauseText, Fragment.selectClause] at h
    have hselect : text = s.selectText r.params ∧ r = r' := by
      unfold Statement.selectText
      split at h
      · next hempty =>
        obtain ⟨rfl, rfl⟩ := yields_pure.mp h
        rw [if_pos hempty]
        exact ⟨rfl, rfl⟩
      · next hne =>
        obtain ⟨texts, mid, htexts, hpure⟩ := yields_bind.mp h
        obtain ⟨rfl, rfl⟩ := yields_projectionTexts hfields htexts
        obtain ⟨rfl, rfl⟩ := yields_pure.mp hpure
        rw [if_neg hne]
        exact ⟨rfl, rfl⟩
    exact ⟨⟨fun _ => hselect.1, fun heq => absurd heq (by decide)⟩, hselect.2⟩
  | «from» =>
    obtain ⟨texts, mid, htexts, hpure⟩ := yields_bind.mp h
    obtain ⟨rfl, rfl⟩ := yields_sourceTexts (fun sub hmem => hclosed sub (.source hmem)) htexts
    obtain ⟨rfl, rfl⟩ := yields_pure.mp hpure
    exact ⟨⟨fun heq => absurd heq (by decide), fun _ => rfl⟩, rfl⟩
  | «where» => exact absurd rfl hclause
  | «let» =>
    have hlets : Steady (letTexts config s.lets) :=
      steady_letTexts fun name sub hmem => hclosed sub (.binding hmem)
    exact hother (by decide) (by decide) (hlets.bind fun _ => steady_pure _)
  | content => exact hother (by decide) (by decide) (Fragment.steady_documentClause _ _ _)
  | merge => exact hother (by decide) (by decide) (Fragment.steady_documentClause _ _ _)
  | set | increment | add | remove | put =>
    have hchanges : ∀ kind, Steady (changeTexts config s.frame.schema? kind s.changes) :=
      fun kind => steady_changeTexts fun change hmem sub hterm => hclosed sub (.change hmem hterm)
    exact hother (by decide) (by decide) ((hchanges _).bind fun _ => steady_pure _)
  | _ => exact hother (by decide) (by decide) (steady_pure _)

/-- Clauses that are no conditions leave the parameters alone. Those that are filled in are filled
in with the parameters at the start. -/
theorem yields_clauseTexts_plain {clauses : List Clause} {texts : List String}
    {known : Fields Value} (hclauses : ∀ clause ∈ clauses, clause ≠ .where)
    (hknown : known = r.params ∨ ∀ clause ∈ clauses, clause ≠ .select ∧ clause ≠ .from)
    (hfields : ∀ p ∈ s.frame.projections, ∃ text, p.expression = .field text)
    (hclosed : ∀ sub, ¬ s.Contains sub)
    (h : Yields (clauses.mapM (clauseText config s)) r texts r') :
    List.Forall₂ (s.Inlines known) clauses texts ∧ r = r' := by
  induction clauses generalizing texts r' with
  | nil =>
    obtain ⟨rfl, rfl⟩ := yields_pure.mp h
    exact ⟨.nil, rfl⟩
  | cons clause rest ih =>
    obtain ⟨hfirst, hrest⟩ := List.forall_mem_cons.mp hclauses
    obtain ⟨text, mid, later, htext, hlater, rfl⟩ := yields_mapM_cons.mp h
    obtain ⟨hinlines, rfl⟩ := yields_clauseText hfirst hfields hclosed htext
    have hnow : s.Inlines known clause text := by
      rcases hknown with rfl | hother
      · exact hinlines
      · obtain ⟨hselect, hfrom⟩ := hother clause List.mem_cons_self
        exact ⟨fun heq => absurd heq hselect, fun heq => absurd heq hfrom⟩
    have hthen := hknown.imp_right fun hother clause hmem =>
      hother clause (List.mem_cons_of_mem _ hmem)
    obtain ⟨hall, rfl⟩ := ih hrest hthen hlater
    exact ⟨.cons hnow hall, rfl⟩

theorem brings_where (hclosed : ∀ sub, ¬ s.Contains sub) :
    Brings (clauseText config s .where) (WhereClause.maps s.conditions) :=
  (brings_clauseTexts config s.frame.schema? s.conditions
    fun _ hmem sub hasks => hclosed sub (.condition hmem hasks)).only fun _ =>
      (steady_pure _).brings

end Clauses

/-- Projections and sources are written before the conditions, and there is one place for those. -/
theorem Frame.activeClauses_split (frame : Frame) :
    (frame.kind = .insert ∧ ∀ clause ∈ frame.activeClauses, clause ≠ .where) ∨
      ∃ before after, frame.activeClauses = before ++ .where :: after ∧
        (∀ clause ∈ before, clause ≠ .where) ∧
        ∀ clause ∈ after, clause ≠ .where ∧ clause ≠ .select ∧ clause ≠ .from := by
  have hactive : frame.isActive .where = true := by
    unfold isActive
    cases frame.kind <;> rfl
  have hsplit : ∀ first last, frame.kind.clauses = first ++ .where :: last →
      (∀ clause ∈ first, clause ≠ .where) →
      (∀ clause ∈ last, clause ≠ .where ∧ clause ≠ .select ∧ clause ≠ .from) →
      ∃ before after, frame.activeClauses = before ++ .where :: after ∧
        (∀ clause ∈ before, clause ≠ .where) ∧
        ∀ clause ∈ after, clause ≠ .where ∧ clause ≠ .select ∧ clause ≠ .from := by
    intro first last hclauses hfirst hlast
    refine ⟨first.filter frame.isActive, last.filter frame.isActive, ?_, ?_, ?_⟩
    · rw [activeClauses, hclauses, List.filter_append, List.filter_cons_of_pos hactive]
    · exact fun clause hmem => hfirst clause (List.mem_of_mem_filter hmem)
    · exact fun clause hmem => hlast clause (List.mem_of_mem_filter hmem)
  cases hkind : frame.kind with
  | insert =>
    refine Or.inl ⟨rfl, fun clause hmem => ?_⟩
    rw [activeClauses, hkind] at hmem
    exact (by decide : ∀ clause ∈ StatementKind.insert.clauses, clause ≠ .where) clause
      (List.mem_of_mem_filter hmem)
  | select =>
    exact Or.inr (hsplit [.select, .from, .let]
      [.group, .order, .skip, .limit, .fetchPlan, .timeout, .lock, .parallel]
      (by rw [hkind]; rfl) (by decide) (by decide))
  | update =>
    exact Or.inr (hsplit [.update, .set, .increment, .add, .remove, .put, .content, .merge,
      .upsert, .return] [.lock, .limit, .timeout] (by rw [hkind]; rfl) (by decide) (by decide))
  | delete =>
    exact Or.inr (hsplit [.delete, .from, .lock, .return] [.limit, .timeout]
      (by rw [hkind]; rfl) (by decide) (by decide))
  | traverse =>
    exact Or.inr (hsplit [.traverse, .from, .let] [.limit, .strategy]
      (by rw [hkind]; rfl) (by decide) (by decide))

namespace Statement

variable {config : Config} {s : Statement} {sql : Sql}

/-- The parameters at the start of a compilation. -/
def startOf (config : Config) (s : Statement) : Registry :=
  ((Registry.ofStem config.stem).merge []).merge s.params

theorem error?_of_compile (h : s.compile config = .ok sql) : s.error? = none := by
  obtain ⟨r, hyields, -⟩ := compileWith_eq_ok h
  exact (yields_statementText.mp hyields).1

/-- Compiling fills in the parameters of the statement, and then merges the maps in its
conditions. -/
theorem compile_eq_ok (hfields : ∀ p ∈ s.frame.projections, ∃ text, p.expression = .field text)
    (hclosed : ∀ sub, ¬ s.Contains sub) (h : s.compile config = .ok sql) :
    ∃ maps r texts,
      (maps = WhereClause.maps s.conditions ∨ maps = [] ∧ s.kind = .insert) ∧
      (s.startOf config).Merges maps r ∧ sql.params = r.params ∧
      sql.text = Fragment.joined config.separator texts ∧
      List.Forall₂ (s.Inlines (s.startOf config).params) s.frame.activeClauses texts := by
  obtain ⟨r, hyields, hparams⟩ := compileWith_eq_ok h
  obtain ⟨-, texts, htexts, htext⟩ := yields_statementText.mp hyields
  rcases s.frame.activeClauses_split with ⟨hkind, hnone⟩ | ⟨before, after, hsplit, hbefore, hafter⟩
  · obtain ⟨hall, rfl⟩ := yields_clauseTexts_plain hnone (Or.inl rfl) hfields hclosed htexts
    exact ⟨[], _, texts, Or.inr ⟨rfl, hkind⟩, .refl, hparams, htext, hall⟩
  · rw [hsplit] at htexts ⊢
    obtain ⟨first, r₁, rest, hfirst, hrest, rfl⟩ := yields_mapM_append.mp htexts
    obtain ⟨text, r₂, last, hwhere, hlast, rfl⟩ := yields_mapM_cons.mp hrest
    obtain ⟨hall, rfl⟩ := yields_clauseTexts_plain hbefore (Or.inl rfl) hfields hclosed hfirst
    obtain ⟨hlater, rfl⟩ := yields_clauseTexts_plain (fun clause hmem => (hafter clause hmem).1)
      (Or.inr fun clause hmem => (hafter clause hmem).2) hfields hclosed hlast
    exact ⟨_, _, _, Or.inl rfl, brings_where hclosed hwhere, hparams, htext,
      List.rel_append hall (.cons ⟨nofun, nofun⟩ hlater)⟩

/-! ### The value of a parameter -/

/-- A name is sent along with a value, and no other value is filled in for it. Null is never filled
in. -/
def OneValue (sent known : String → Option Value) (name : String) (v : Value) : Prop :=
  sent name = some v ∧ ∀ w, known name = some w → w.isNull = false → w = v

mutual

theorem lastOf?_maps_test (test : Test) (h : test.Throughout Test.Unsupplied) (name : String) :
    lastOf? test.maps name = none := by
  cases test with
  | group params members =>
    obtain rfl : params = [] := h.self params members rfl
    rw [Test.maps, lastOf?_cons, lastOf?_maps members h.members name]
    rfl
  | compare path op v => rfl
  | null path op => rfl
  | membership path op operand => rfl
  | range path low high => rfl
  | raw sql => rfl

theorem lastOf?_maps (clauses : List WhereClause)
    (h : ∀ clause ∈ clauses, clause.test.Throughout Test.Unsupplied) (name : String) :
    lastOf? (WhereClause.maps clauses) name = none := by
  match clauses with
  | [] => rfl
  | ⟨logic, test⟩ :: rest =>
    obtain ⟨hfirst, hrest⟩ := List.forall_mem_cons.mp h
    rw [WhereClause.maps, lastOf?_append, lastOf?_maps rest hrest name,
      lastOf?_maps_test test hfirst name]
    rfl

end

variable {calls : List Call} {name : String} {v : Value}

/-- The parameters at the start are those that the calls left. -/
theorem Plain.get?_startOf (hplain : s.Plain) (hcalls : (s.takeAll calls).error? = none)
    (name : String) : Fields.get? ((s.takeAll calls).startOf config).params name =
      lastOf? (Call.effects calls).taken name := by
  have htook := (took_takeAll calls hcalls).2
  have hsorted : Fields.Sorted (s.takeAll calls).params :=
    htook.sorted (hplain.own ▸ Fields.sorted_nil)
  have hstart : ((s.takeAll calls).startOf config).params =
      Fields.merge [] (s.takeAll calls).params := rfl
  rw [hstart, Fields.get?_merge, hsorted.get?_ofList, htook.params, hplain.own]
  simp

theorem Took.closed {t : Statement} {e : Effect} (h : Took s t e)
    (hclosed : ∀ sub, ¬ s.Contains sub) (sub : Statement) : ¬ t.Contains sub := by
  obtain ⟨more, hmore, -, hasks, -⟩ := h.conditions
  intro hsub
  cases hsub with
  | source hmem => exact hclosed sub (.source (h.sources ▸ hmem))
  | binding hmem => exact hclosed sub (.binding (h.lets ▸ hmem))
  | change hmem hterm => exact hclosed sub (.change (h.changes ▸ hmem) hterm)
  | condition hmem htest =>
    rw [hmore] at hmem
    rcases List.mem_append.mp hmem with hmem | hmem
    · exact hclosed sub (.condition hmem htest)
    · exact hasks _ hmem sub htest

/-- What is filled in for a name is the last value that the statement took, and what is sent along
is the last that a group brings, if any does. So a name has the value that was given last exactly if
both of these are that value. -/
theorem one_value_iff (hplain : s.Plain)
    (hinsert : s.kind = .insert → (Call.effects calls).leaves = false)
    (h : (s.takeAll calls).compile config = .ok sql) :
    ∃ known texts, sql.text = Fragment.joined config.separator texts ∧
      List.Forall₂ (s.Inlines known) s.frame.activeClauses texts ∧
      ∀ name v, lastOf? (Call.effects calls).given name = some v →
        (lastOf? (Call.effects calls).taken name ≠ none ∨
          ∀ index, name ≠ Registry.nameOf config.stem index) →
        (OneValue (Fields.get? sql.params) (Fields.get? known) name v ↔
          OneValue (lastOf? ((Call.effects calls).taken ++ (Call.effects calls).again))
            (lastOf? (Call.effects calls).taken) name v) := by
  have herror := error?_of_compile h
  have htook := (took_takeAll calls herror).2
  have hfields : ∀ p ∈ (s.takeAll calls).frame.projections, ∃ text, p.expression = .field text := by
    rw [htook.frame]
    exact hplain.fields
  obtain ⟨maps, r, texts, hmaps, hmerges, hparams, htext, hall⟩ :=
    compile_eq_ok hfields (htook.closed hplain.closed) h
  obtain ⟨more, hmore, hleaves, -, hagain⟩ := htook.conditions
  have hlast : ∀ name, lastOf? maps name = lastOf? (Call.effects calls).again name := by
    intro name
    rcases hmaps with rfl | ⟨rfl, hkind⟩
    · rw [hmore, WhereClause.maps_append, lastOf?_append, hagain,
        lastOf?_maps _ hplain.conditions, Option.or_none]
    · have hsame : s.kind = .insert := by
        rw [kind, htook.frame] at hkind
        exact hkind
      rw [hleaves.mpr (hinsert hsame)] at hagain
      exact hagain name
  refine ⟨((s.takeAll calls).startOf config).params, texts, htext, ?_, fun name v _ hname => ?_⟩
  · rw [htook.frame] at hall
    refine hall.imp fun clause text hinlines => ⟨fun heq => ?_, fun heq => ?_⟩
    · rw [hinlines.select heq, selectText, selectText, htook.frame]
    · rw [hinlines.sources heq, fromText, fromText, htook.sources, kind, htook.frame]
      rfl
  · have hknown : Fields.get? ((s.takeAll calls).startOf config).params name =
        lastOf? (Call.effects calls).taken name := hplain.get?_startOf herror name
    have hsent : Fields.get? sql.params name =
        lastOf? ((Call.effects calls).taken ++ (Call.effects calls).again) name := by
      rw [hparams, hmerges.get? (hknown ▸ hname), hknown, hlast, lastOf?_append]
    rw [OneValue, OneValue, hsent, hknown]

/-- A parameter is used in a projection and in a condition. -/
def first : Statement :=
  (selectOf [.ofText "first(:x)"]).setSource (.target "User")

theorem plain_first : first.Plain where
  own := rfl
  conditions := nofun
  fields p hmem := ⟨"first(:x)", by rw [List.mem_singleton.mp hmem]; rfl⟩
  closed sub hsub := by
    cases hsub with
    | source hmem => cases List.mem_singleton.mp hmem
    | binding hmem => cases hmem
    | condition hmem _ => cases hmem
    | change hmem _ => cases hmem

def matching (v : Value) : Call :=
  .group .and [.raw .and "a = :x" [("x", v)]]

/-- The group comes last, and its value is the one filled in and the one sent along. -/
theorem one_value_iff_group_last :
    (first.takeAll [.params [("x", .int 2)], matching (.int 1)]).compile .default =
        .ok ⟨"SELECT first(1) FROM User WHERE (a = :x)", [("x", .int 1)], .empty⟩ ∧
      ∃ known texts, "SELECT first(1) FROM User WHERE (a = :x)" = Fragment.joined " " texts ∧
        List.Forall₂ (first.Inlines known) first.frame.activeClauses texts ∧
        OneValue (Fields.get? [("x", .int 1)]) (Fields.get? known) "x" (.int 1) := by
  have hcompile : (first.takeAll [.params [("x", .int 2)], matching (.int 1)]).compile .default =
      .ok ⟨"SELECT first(1) FROM User WHERE (a = :x)", [("x", .int 1)], .empty⟩ := rfl
  obtain ⟨known, texts, htext, hall, hiff⟩ := one_value_iff plain_first nofun hcompile
  refine ⟨hcompile, known, texts, htext, hall, ?_⟩
  refine (hiff "x" (.int 1) rfl (Or.inl nofun)).mpr ⟨rfl, fun w hw _ => ?_⟩
  exact (Option.some.inj hw).symm

/-- A parameter given after a group is filled in, and the value from the group is sent along. -/
theorem two_values_for_one_name :
    lastOf? (Call.effects [matching (.int 1), .params [("x", .int 2)]]).given "x" =
        some (.int 2) ∧
      (first.takeAll [matching (.int 1), .params [("x", .int 2)]]).compile .default =
        .ok ⟨"SELECT first(2) FROM User WHERE (a = :x)", [("x", .int 1)], .empty⟩ :=
  ⟨rfl, rfl⟩

end Statement

end DocMapper
