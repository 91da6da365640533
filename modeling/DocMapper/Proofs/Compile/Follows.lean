import DocMapper.Proofs.Compile.Run
/-!
# What compiling does to the parameters

Whatever a statement holds, writing its text changes the parameters in two ways only: named values
are merged into them, and values are bound to new names. `Registry.Steps` is the closure of the two,
so what both keep is kept by every compilation.
-/

namespace DocMapper

/-- One registry comes from another by merging and binding. -/
inductive Registry.Steps (r : Registry) : Registry → Prop where
  | refl : Steps r r
  | merge {mid : Registry} (h : Steps r mid) (params : Fields Value) : Steps r (mid.merge params)
  | bind {mid : Registry} (h : Steps r mid) (v : Value) : Steps r (mid.bind v).2

theorem Registry.Steps.trans {r mid r' : Registry} (hfirst : r.Steps mid) (hsecond : mid.Steps r') :
    r.Steps r' := by
  induction hsecond with
  | refl => exact hfirst
  | merge _ params ih => exact ih.merge params
  | bind _ v ih => exact ih.bind v

namespace Compile

variable {α β : Type}

/-- A computation only merges and binds. -/
def Follows (m : Compile α) : Prop :=
  ∀ ⦃r : Registry⦄ ⦃a : α⦄ ⦃r' : Registry⦄, Yields m r a r' → r.Steps r'

theorem follows_pure (a : α) : Follows (pure a) := by
  intro r b r' h
  obtain ⟨-, rfl⟩ := yields_pure.mp h
  exact .refl

theorem Follows.bind {m : Compile α} {f : α → Compile β} (hm : Follows m)
    (hf : ∀ a, Follows (f a)) : Follows (m >>= f) := by
  intro r b r' h
  obtain ⟨a, mid, hfirst, hsecond⟩ := yields_bind.mp h
  exact (hm hfirst).trans (hf a hsecond)

theorem follows_fail (e : Error) : Follows (fail e : Compile α) :=
  fun _ _ _ h => absurd h not_yields_fail

theorem follows_bindValue (v : Value) : Follows (Compile.bind v) := by
  intro r token r' h
  have hbind := yields_bindValue.mp h
  have hstep := Registry.Steps.refl (r := r).bind v
  rwa [hbind] at hstep

theorem follows_mergeParams (params : Fields Value) : Follows (mergeParams params) := by
  intro r _ r' h
  exact yields_mergeParams.mp h ▸ Registry.Steps.refl.merge params

theorem follows_fill (text : String) : Follows (fill text) := by
  intro r _ r' h
  obtain ⟨-, rfl⟩ := yields_fill.mp h
  exact .refl

theorem follows_liftCast (result : Except CastError α) : Follows (liftCast result) := by
  intro r _ r' h
  obtain ⟨-, rfl⟩ := yields_liftCast.mp h
  exact .refl

theorem follows_mapM {f : α → Compile β} (hf : ∀ a, Follows (f a)) (items : List α) :
    Follows (items.mapM f) := by
  induction items with
  | nil => exact follows_pure []
  | cons a rest ih =>
    rw [List.mapM_cons]
    exact (hf a).bind fun _ => ih.bind fun _ => follows_pure _

theorem follows_bindAll (values : List Value) : Follows (bindAll values) := by
  induction values with
  | nil => exact follows_pure []
  | cons v rest ih => exact (follows_bindValue v).bind fun _ => ih.bind fun _ => follows_pure _

end Compile

namespace Fragment

open Compile

variable (schema? : Option Schema) (path : String)

theorem follows_castForQuery (op : Operator) (v : Value) :
    Follows (castForQuery schema? path op v) := by
  cases schema? with
  | none => exact follows_pure v
  | some schema => exact follows_liftCast _

theorem follows_castAt (v : Value) : Follows (castAt schema? path v) := by
  cases schema? with
  | none => exact follows_pure v
  | some schema => exact follows_liftCast _

theorem follows_compareText (op : Operator) (v : Value) :
    Follows (compareText schema? path op v) := by
  refine (follows_castForQuery schema? path op v).bind fun cast => ?_
  split
  · refine (follows_bindAll _).bind fun tokens => ?_
    split <;> exact follows_pure _
  · exact (follows_bindValue _).bind fun _ => follows_pure _

theorem follows_membershipText (op : Operator) (v : Value) :
    Follows (membershipText schema? path op v) := by
  refine (follows_castForQuery schema? path op v).bind fun cast => ?_
  split
  · exact (follows_bindAll _).bind fun _ => follows_pure _
  · exact (follows_bindValue _).bind fun _ => follows_pure _

theorem follows_rangeText (low high : Value) : Follows (rangeText schema? path low high) := by
  refine (follows_castForQuery schema? path .between _).bind fun bounds => ?_
  exact (follows_bindValue _).bind fun _ => (follows_bindValue _).bind fun _ => follows_pure _

theorem follows_castRemoved (v : Value) : Follows (castRemoved schema? path v) := by
  unfold castRemoved
  split
  · exact follows_pure v
  · split
    · split
      · exact (follows_liftCast _).bind fun _ => follows_pure _
      · exact follows_liftCast _
    · split
      · exact (follows_liftCast _).bind fun _ => follows_pure _
      · exact follows_liftCast _
    · exact follows_pure v

theorem follows_removeItems (v : Value) : Follows (removeItems schema? path v) := by
  unfold removeItems
  split
  · exact follows_pure _
  · exact (follows_castRemoved schema? path v).bind fun _ => follows_pure _

theorem follows_putItems (nestedSet : Bool) (v : Value) :
    Follows (putItems schema? nestedSet path v) := by
  refine (follows_castAt schema? path v).bind fun cast => ?_
  split <;> exact follows_pure _

theorem follows_valueItems (nestedSet : Bool) (kind : ChangeKind) (v : Value) :
    Follows (valueItems schema? nestedSet kind path v) := by
  unfold valueItems
  split
  · exact follows_removeItems schema? path v
  · exact follows_putItems schema? path nestedSet v
  · exact (follows_castAt schema? path v).bind fun _ => follows_pure _

theorem follows_projectionText (p : Projection) : Follows (projectionText p) := by
  obtain ⟨expression, label?⟩ := p
  cases expression with
  | field text => exact (follows_pure text).bind fun _ => follows_fill _
  | sql text params =>
    exact (follows_mergeParams params).bind fun _ =>
      (follows_pure text).bind fun _ => follows_fill _

theorem follows_projectionTexts (projections : List Projection) :
    Follows (projectionTexts projections) := by
  induction projections with
  | nil => exact follows_pure []
  | cons p rest ih => exact (follows_projectionText p).bind fun _ => ih.bind fun _ => follows_pure _

theorem follows_selectClause (projections : List Projection) :
    Follows (selectClause projections) := by
  unfold selectClause
  split
  · exact follows_pure ""
  · exact (follows_projectionTexts projections).bind fun _ => follows_pure _

theorem follows_castEntries (entries : List (String × Value)) :
    Follows (castEntries schema? entries) := by
  induction entries with
  | nil => exact follows_pure []
  | cons entry rest ih =>
    exact (follows_castAt schema? entry.1 entry.2).bind fun _ => ih.bind fun _ => follows_pure _

theorem follows_documentClause (keyword : String) (documents : List (Fields Value)) :
    Follows (documentClause schema? keyword documents) := by
  unfold documentClause
  split
  · exact follows_pure ""
  · exact (follows_castEntries schema? _).bind fun _ => follows_pure _

end Fragment

section Statements

open Compile

variable (config : Config)

mutual

theorem follows_statementText (s : Statement) : Follows (statementText config s) := by
  obtain ⟨frame, sources, lets, conditions, changes⟩ := s
  rw [statementText]
  split
  · exact follows_fail _
  · refine (follows_mergeParams _).bind fun _ => Follows.bind ?_ fun _ => follows_pure _
    refine follows_mapM (fun clause => ?_) _
    split
    · exact Fragment.follows_selectClause _
    · exact (follows_sourceTexts sources).bind fun _ => follows_pure _
    · exact (follows_letTexts lets).bind fun _ => follows_pure _
    · exact (follows_clauseTexts frame.schema? conditions).bind fun _ => follows_pure _
    · exact Fragment.follows_documentClause _ _ _
    · exact Fragment.follows_documentClause _ _ _
    · split
      · exact (follows_changeTexts frame.schema? _ changes).bind fun _ => follows_pure _
      · exact follows_pure _

theorem follows_sourceTexts (sources : List Source) : Follows (sourceTexts config sources) := by
  cases sources with
  | nil => exact follows_pure []
  | cons source rest =>
    cases source with
    | target text =>
      exact (follows_fill text).bind fun _ => (follows_sourceTexts rest).bind fun _ => follows_pure _
    | query s =>
      exact (follows_statementText s).bind fun _ =>
        (follows_sourceTexts rest).bind fun _ => follows_pure _

theorem follows_letTexts (lets : List (String × LetValue)) : Follows (letTexts config lets) := by
  match lets with
  | [] => exact follows_pure []
  | (name, .expression text) :: rest => exact (follows_letTexts rest).bind fun _ => follows_pure _
  | (name, .query s) :: rest =>
    exact (follows_statementText s).bind fun _ =>
      (follows_letTexts rest).bind fun _ => follows_pure _

theorem follows_clauseTexts (schema? : Option Schema) (clauses : List WhereClause) :
    Follows (clauseTexts config schema? clauses) := by
  match clauses with
  | [] => exact follows_pure []
  | ⟨logic, test⟩ :: rest =>
    exact (follows_testText schema? test).bind fun _ =>
      (follows_clauseTexts schema? rest).bind fun _ => follows_pure _

theorem follows_testText (schema? : Option Schema) (test : Test) :
    Follows (testText config schema? test) := by
  cases test with
  | compare path op v => exact Fragment.follows_compareText schema? path op v
  | null path op => exact follows_pure _
  | membership path op operand => exact follows_membershipText schema? path op operand
  | range path low high => exact Fragment.follows_rangeText schema? path low high
  | group params members =>
    exact (follows_mergeParams params).bind fun _ =>
      (follows_clauseTexts schema? members).bind fun _ => follows_pure _
  | raw sql => exact follows_pure sql

theorem follows_membershipText (schema? : Option Schema) (path : String) (op : Operator)
    (operand : Term) : Follows (membershipText config schema? path op operand) := by
  cases operand with
  | value v => exact Fragment.follows_membershipText schema? path op v
  | query s => exact (follows_statementText s).bind fun _ => follows_pure _

theorem follows_changeTexts (schema? : Option Schema) (kind : ChangeKind) (changes : List Change) :
    Follows (changeTexts config schema? kind changes) := by
  match changes with
  | [] => exact follows_pure []
  | ⟨other, path, term⟩ :: rest =>
    rw [changeTexts]
    split
    · exact (follows_termTexts schema? kind path term).bind fun _ =>
        (follows_changeTexts schema? kind rest).bind fun _ => follows_pure _
    · exact follows_changeTexts schema? kind rest

theorem follows_termTexts (schema? : Option Schema) (kind : ChangeKind) (path : String)
    (term : Term) : Follows (termTexts config schema? kind path term) := by
  cases term with
  | value v => exact Fragment.follows_valueItems schema? path _ kind v
  | query s =>
    rw [termTexts]
    split
    · exact follows_pure []
    · exact (follows_statementText s).bind fun _ => follows_pure _

end

end Statements

end DocMapper
