import DocMapper.Proofs.Compile.Failures
import DocMapper.Proofs.Query.Made
import Mathlib.Logic.Relation
/-!
# Values that do not fit

Whatever a statement holds, its compilation fails for one of two reasons only: an error was noted on
the statement or on one inside it, or a value that is written somewhere in it is refused by the type
that the schema declares for its path.
-/

namespace DocMapper

open Compile

/-- The type declared for the path, or its type for items, refuses the value or one of its items. -/
def Schema.Misfits (schema : Schema) (path : String) (v : Value) (failure : CastError) : Prop :=
  ∃ field w, schema.field? path = some field ∧ (w = v ∨ w ∈ FieldType.itemsOf v) ∧
    (field.type.cast path w = .error failure ∨ field.type.itemType.cast path w = .error failure)

/-- A test compares the path with the value. -/
inductive Test.Weighs (path : String) (v : Value) : Test → Prop where
  | compare (op : Operator) : Weighs path v (.compare path op v)
  | membership (op : Operator) : Weighs path v (.membership path op (.value v))
  | range {low high : Value} (h : v = .list [low, high]) : Weighs path v (.range path low high)
  | member {params : Fields Value} {members : List WhereClause} {clause : WhereClause}
    (hmem : clause ∈ members) (h : Weighs path v clause.test) : Weighs path v (.group params members)

namespace Statement

/-- A statement has the value for the path, in one of the places for values. -/
inductive HasFor (s : Statement) (path : String) (v : Value) : Prop where
  | condition {clause : WhereClause} (hmem : clause ∈ s.conditions) (h : clause.test.Weighs path v)
  | content {document : Fields Value} (hmem : document ∈ s.frame.content) (h : (path, v) ∈ document)
  | merge {document : Fields Value} (hmem : document ∈ s.frame.merge) (h : (path, v) ∈ document)
  | change {kind : ChangeKind} (hmem : ⟨kind, path, .value v⟩ ∈ s.changes)

/-- Some value in a statement does not fit its schema. -/
def Misfits (s : Statement) (failure : CastError) : Prop :=
  ∃ schema path v, s.frame.schema? = some schema ∧ s.HasFor path v ∧ schema.Misfits path v failure

/-- A statement stands in another, at some depth, or is the other one itself. -/
def Embeds : Statement → Statement → Prop :=
  Relation.ReflTransGen Contains

/-- The error was noted on some statement inside, or some value inside does not fit. -/
def Blames (s : Statement) (e : Error) : Prop :=
  ∃ t, s.Embeds t ∧ (t.error? = some e ∨ ∃ failure, t.Misfits failure ∧ e = .cast failure)

theorem Blames.of_contains {s sub : Statement} {e : Error} (hsub : s.Contains sub)
    (h : sub.Blames e) : s.Blames e := by
  obtain ⟨t, hembeds, hcause⟩ := h
  exact ⟨t, .head hsub hembeds, hcause⟩

end Statement

/-! ### How casts fail -/

namespace Schema

variable {schema : Schema} {path : String} {v w : Value} {failure : CastError}

theorem misfits_of_cast (h : schema.cast path v = .error failure) :
    schema.Misfits path v failure := by
  obtain ⟨field, hfield, hcast⟩ := Fragment.exists_field_of_cast h
  exact ⟨field, v, hfield, Or.inl rfl, Or.inl hcast⟩

theorem misfits_of_castItem (hmem : w ∈ FieldType.itemsOf v)
    (h : schema.castItem path w = .error failure) : schema.Misfits path v failure := by
  obtain ⟨field, hfield, hcast⟩ := Fragment.exists_field_of_castItem h
  exact ⟨field, w, hfield, Or.inr hmem, Or.inr hcast⟩

theorem exists_of_castOperands {type : FieldType} (h : castOperands type path v = .error failure) :
    ∃ w ∈ FieldType.itemsOf v, type.itemType.cast path w = .error failure := by
  cases v with
  | list items => exact Success.exists_of_mapM_eq_error (Success.map_eq_error.mp h)
  | null | bool | int | float | string | dateTime | link | map =>
    exact ⟨_, List.mem_singleton_self _, h⟩

theorem misfits_of_castForQuery {op : Operator}
    (h : schema.castForQuery path op v = .error failure) : schema.Misfits path v failure := by
  unfold castForQuery at h
  split at h
  · cases h
  · next field hfield =>
    have hoperands : castOperands field.type path v = .error failure →
        schema.Misfits path v failure := fun hcast => by
      obtain ⟨w, hmem, hw⟩ := exists_of_castOperands hcast
      exact ⟨field, w, hfield, Or.inr hmem, Or.inr hw⟩
    have hitem : field.type.itemType.cast path v = .error failure →
        schema.Misfits path v failure := fun hcast => ⟨field, v, hfield, Or.inl rfl, Or.inr hcast⟩
    split at h
    · cases h
    · cases h
    · cases h
    · cases h
    · cases h
    · exact hoperands h
    · exact hoperands h
    · exact hoperands h
    · split at h
      · split at h
        · exact ⟨field, _, hfield, Or.inl rfl, Or.inl h⟩
        · exact hitem h
      · exact hitem h

end Schema

/-! ### How the pieces of a statement fail -/

namespace Compile

variable {P Q : Error → Prop}

theorem FailsWith.mono {α : Type} {m : Compile α} (h : FailsWith m P) (himp : ∀ e, P e → Q e) :
    FailsWith m Q :=
  fun r e hrun => himp e (h r e hrun)

theorem failsWith_fill (text : String) : FailsWith (fill text) P :=
  nofun

theorem failsWith_bindValue (v : Value) : FailsWith (Compile.bind v) P :=
  nofun

theorem failsWith_bindAll (values : List Value) : FailsWith (bindAll values) P := by
  induction values with
  | nil => exact failsWith_pure []
  | cons v rest ih =>
    exact (failsWith_bindValue v).bind fun _ => ih.bind fun _ => failsWith_pure _

end Compile

/-- The errors include that the value is refused for the path. -/
def Allows (P : Error → Prop) (schema? : Option Schema) (path : String) (v : Value) : Prop :=
  ∀ schema ∈ schema?, ∀ failure, schema.Misfits path v failure → P (.cast failure)

namespace Fragment

variable {P : Error → Prop} {schema? : Option Schema} {path : String} {v : Value}

theorem failsWith_selectClause (projections : List Projection) :
    FailsWith (selectClause projections) P := by
  have htext : ∀ p : Projection, FailsWith (projectionText p) P := by
    rintro ⟨expression, label?⟩
    cases expression with
    | field text => exact (failsWith_pure text).bind fun _ => failsWith_fill _
    | sql text params =>
      have hmerge : FailsWith (mergeParams params >>= fun _ => pure text) P :=
        (failsWith_mergeParams params).bind fun _ => failsWith_pure text
      exact hmerge.bind fun _ => failsWith_fill _
  have htexts : ∀ projections, FailsWith (projectionTexts projections) P := by
    intro projections
    induction projections with
    | nil => exact failsWith_pure []
    | cons p rest ih => exact (htext p).bind fun _ => ih.bind fun _ => failsWith_pure _
  unfold selectClause
  split
  · exact failsWith_pure ""
  · exact (htexts projections).bind fun _ => failsWith_pure _

theorem failsWith_castForQuery (h : Allows P schema? path v) (op : Operator) :
    FailsWith (castForQuery schema? path op v) P := by
  cases schema? with
  | none => exact failsWith_pure v
  | some schema =>
    exact failsWith_liftCast fun e hcast => h schema rfl e (Schema.misfits_of_castForQuery hcast)

theorem failsWith_compareText (h : Allows P schema? path v) (op : Operator) :
    FailsWith (compareText schema? path op v) P := by
  refine (failsWith_castForQuery h op).bind fun w => ?_
  split
  · refine (failsWith_bindAll _).bind fun tokens => ?_
    split <;> exact failsWith_pure _
  · exact (failsWith_bindValue _).bind fun _ => failsWith_pure _

theorem failsWith_membershipText (h : Allows P schema? path v) (op : Operator) :
    FailsWith (membershipText schema? path op v) P := by
  refine (failsWith_castForQuery h op).bind fun w => ?_
  split
  · exact (failsWith_bindAll _).bind fun _ => failsWith_pure _
  · exact (failsWith_bindValue _).bind fun _ => failsWith_pure _

theorem failsWith_rangeText {low high : Value} (h : Allows P schema? path (.list [low, high])) :
    FailsWith (rangeText schema? path low high) P :=
  (failsWith_castForQuery h .between).bind fun _ =>
    (failsWith_bindValue _).bind fun _ => (failsWith_bindValue _).bind fun _ => failsWith_pure _

theorem failsWith_documentClause (keyword : String) {documents : List (Fields Value)}
    (h : ∀ document ∈ documents, ∀ path v, (path, v) ∈ document → Allows P schema? path v) :
    FailsWith (documentClause schema? keyword documents) P := by
  have hentries : ∀ entries : List (String × Value),
      (∀ entry ∈ entries, Allows P schema? entry.1 entry.2) →
        FailsWith (castEntries schema? entries) P := by
    intro entries hallows
    induction entries with
    | nil => exact failsWith_pure []
    | cons entry rest ih =>
      obtain ⟨hfirst, hlater⟩ := List.forall_mem_cons.mp hallows
      have hcast : FailsWith (castAt schema? entry.1 entry.2) P :=
        failsWith_castAt fun schema hschema e he =>
          hfirst schema hschema e (Schema.misfits_of_cast he)
      exact hcast.bind fun _ => (ih hlater).bind fun _ => failsWith_pure _
  unfold documentClause
  split
  · exact failsWith_pure ""
  · refine (hentries _ fun entry hmem => ?_).bind fun _ => failsWith_pure _
    obtain ⟨document, hdocument, hentry⟩ := (Fields.mem_foldl_merge hmem).resolve_left nofun
    exact h document hdocument _ _ hentry

theorem failsWith_valueItems_of_allows (nestedSet : Bool) (kind : ChangeKind)
    (h : Allows P schema? path v) : FailsWith (valueItems schema? nestedSet kind path v) P :=
  failsWith_valueItems nestedSet
    (fun _ schema hschema e hcast => h schema hschema e (Schema.misfits_of_cast hcast))
    fun _ schema hschema _ _ hmem e hcast =>
      h schema hschema e (Schema.misfits_of_castItem hmem hcast)

end Fragment

section Pieces

variable {config : Config} {P : Error → Prop} {schema? : Option Schema}

theorem failsWith_sourceTexts {sources : List Source}
    (hsubs : ∀ sub, .query sub ∈ sources → FailsWith (statementText config sub) P) :
    FailsWith (sourceTexts config sources) P := by
  induction sources with
  | nil => exact failsWith_pure []
  | cons source rest ih =>
    have hrest := ih fun sub hmem => hsubs sub (List.mem_cons_of_mem _ hmem)
    cases source with
    | target text => exact (failsWith_fill text).bind fun _ => hrest.bind fun _ => failsWith_pure _
    | query sub =>
      exact (hsubs sub List.mem_cons_self).bind fun _ => hrest.bind fun _ => failsWith_pure _

theorem failsWith_letTexts {lets : List (String × LetValue)}
    (hsubs : ∀ name sub, (name, .query sub) ∈ lets → FailsWith (statementText config sub) P) :
    FailsWith (letTexts config lets) P := by
  induction lets with
  | nil => exact failsWith_pure []
  | cons entry rest ih =>
    have hrest := ih fun name sub hmem => hsubs name sub (List.mem_cons_of_mem _ hmem)
    match entry with
    | (name, .expression text) => exact hrest.bind fun _ => failsWith_pure _
    | (name, .query sub) =>
      exact (hsubs name sub List.mem_cons_self).bind fun _ => hrest.bind fun _ => failsWith_pure _

mutual

theorem failsWith_clauseTexts (clauses : List WhereClause)
    (hvalues : ∀ clause ∈ clauses, ∀ path v, clause.test.Weighs path v → Allows P schema? path v)
    (hsubs : ∀ clause ∈ clauses, ∀ sub, clause.test.Asks sub →
      FailsWith (statementText config sub) P) : FailsWith (clauseTexts config schema? clauses) P := by
  match clauses with
  | [] => exact failsWith_pure []
  | ⟨logic, test⟩ :: rest =>
    obtain ⟨hvalue, hvaluesLater⟩ := List.forall_mem_cons.mp hvalues
    obtain ⟨hsub, hsubsLater⟩ := List.forall_mem_cons.mp hsubs
    exact (failsWith_testText test hvalue hsub).bind fun _ =>
      (failsWith_clauseTexts rest hvaluesLater hsubsLater).bind fun _ => failsWith_pure _

theorem failsWith_testText (test : Test)
    (hvalues : ∀ path v, test.Weighs path v → Allows P schema? path v)
    (hsubs : ∀ sub, test.Asks sub → FailsWith (statementText config sub) P) :
    FailsWith (testText config schema? test) P := by
  match test with
  | .compare path op v => exact Fragment.failsWith_compareText (hvalues path v (.compare op)) op
  | .null path op => exact failsWith_pure _
  | .membership path op (.value v) =>
    exact Fragment.failsWith_membershipText (hvalues path v (.membership op)) op
  | .membership path op (.query sub) =>
    exact (hsubs sub (.membership path op)).bind fun _ => failsWith_pure _
  | .range path low high => exact Fragment.failsWith_rangeText (hvalues path _ (.range rfl))
  | .group params members =>
    have hmembers := failsWith_clauseTexts members
      (fun _ hmem path v hweighs => hvalues path v (.member hmem hweighs))
      fun _ hmem sub hasks => hsubs sub (.member hmem hasks)
    exact (failsWith_mergeParams params).bind fun _ => hmembers.bind fun _ => failsWith_pure _
  | .raw sql => exact failsWith_pure sql

end

theorem failsWith_changeTexts_of_allows (kind : ChangeKind) {changes : List Change}
    (hvalues : ∀ kind path v, ⟨kind, path, .value v⟩ ∈ changes → Allows P schema? path v)
    (hsubs : ∀ change ∈ changes, ∀ sub, change.term = .query sub →
      FailsWith (statementText config sub) P) :
    FailsWith (changeTexts config schema? kind changes) P := by
  refine Statement.failsWith_changeTexts fun change hmem _ => ?_
  obtain ⟨other, path, term⟩ := change
  cases term with
  | value v => exact Fragment.failsWith_valueItems_of_allows _ kind (hvalues other path v hmem)
  | query sub =>
    rw [termTexts]
    split
    · exact failsWith_pure []
    · exact (hsubs _ hmem sub rfl).bind fun _ => failsWith_pure _

end Pieces

/-! ### How a statement fails -/

namespace Statement

variable {config : Config}

theorem failsWith_clauseText_of_misfits {s : Statement} {P : Error → Prop}
    (h : ∀ e, s.Misfits e → P (.cast e))
    (hsubs : ∀ sub, s.Contains sub → FailsWith (statementText config sub) P) (clause : Clause) :
    FailsWith (clauseText config s clause) P := by
  have hallows : ∀ path v, s.HasFor path v → Allows P s.frame.schema? path v :=
    fun path v hvalue schema hschema e hmisfits => h e ⟨schema, path, v, hschema, hvalue, hmisfits⟩
  have hchanges : ∀ kind, FailsWith (changeTexts config s.frame.schema? kind s.changes) P :=
    fun kind => failsWith_changeTexts_of_allows kind
      (fun _ path v hmem => hallows path v (.change hmem))
      fun _ hmem sub hterm => hsubs sub (.change hmem hterm)
  cases clause with
  | select => exact Fragment.failsWith_selectClause _
  | «from» =>
    have htexts := failsWith_sourceTexts fun sub hmem => hsubs sub (.source hmem)
    exact htexts.bind fun _ => failsWith_pure _
  | «let» =>
    have htexts := failsWith_letTexts fun _ sub hmem => hsubs sub (.binding hmem)
    exact htexts.bind fun _ => failsWith_pure _
  | «where» =>
    have htexts := failsWith_clauseTexts s.conditions
      (fun _ hmem path v hweighs => hallows path v (.condition hmem hweighs))
      fun _ hmem sub hasks => hsubs sub (.condition hmem hasks)
    exact htexts.bind fun _ => failsWith_pure _
  | content =>
    exact Fragment.failsWith_documentClause _ fun _ hmem path v hentry =>
      hallows path v (.content hmem hentry)
  | merge =>
    exact Fragment.failsWith_documentClause _ fun _ hmem path v hentry =>
      hallows path v (.merge hmem hentry)
  | set | increment | add | remove | put => exact (hchanges _).bind fun _ => failsWith_pure _
  | _ => exact failsWith_pure _

/-- Compiling a statement fails with what it can be blamed for, and with nothing else. -/
theorem failsWith_statementText {p : Statement → Prop} {s : Statement} (h : s.Everywhere p) :
    FailsWith (statementText config s) s.Blames := by
  -- The property is of no concern, but it lets the induction be on what stands inside.
  induction h with
  | @intro s _ _ ih =>
    rw [statementText_eq]
    split
    · next e hnoted =>
      rintro r e' ⟨⟩
      exact ⟨s, .refl, Or.inl hnoted⟩
    · have hclause : ∀ clause, FailsWith (clauseText config s clause) s.Blames :=
        failsWith_clauseText_of_misfits (fun e hmisfits => ⟨s, .refl, Or.inr ⟨e, hmisfits, rfl⟩⟩)
          fun sub hsub => (ih sub hsub).mono fun _ => Blames.of_contains hsub
      exact (failsWith_mergeParams s.params).bind fun _ =>
        (failsWith_mapM fun clause _ => hclause clause).bind fun _ => failsWith_pure _

end Statement

end DocMapper
