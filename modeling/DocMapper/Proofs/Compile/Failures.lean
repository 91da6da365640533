import DocMapper.Proofs.Compile.Ordered
import DocMapper.Proofs.FieldType
/-!
# How a compilation fails

Values are cast once more while a statement is written, by the types declared for the paths of its
changes. A statement that holds nothing but values of changes fails in no other way: some declared
type does not take the operand of a change.
-/

namespace DocMapper

namespace FieldType

/-- The type takes the operand of a change. What is removed from a list or a set is cast item by
item, and what is removed from anything else is not cast. -/
def TakesChange (ty : FieldType) (kind : ChangeKind) (v : Value) : Prop :=
  match kind with
  | .remove => ty.container? = some .list ∨ ty.container? = some .set →
      ∀ w ∈ itemsOf v, ty.itemType.Accepts w
  | _ => ty.Accepts v

end FieldType

/-- The error is the cast of an operand that the type declared for its path does not take. -/
def Schema.Refuses (schema : Schema) (kind : ChangeKind) (path : String) (v : Value)
    (e : Error) : Prop :=
  ∃ field failure, schema.field? path = some field ∧ ¬ field.type.TakesChange kind v ∧
    e = .cast failure ∧ failure.path = path

namespace Compile

variable {α β : Type} {m : Compile α} {P : Error → Prop}

/-- Started with any registry, a computation has no errors but these. -/
def FailsWith (m : Compile α) (P : Error → Prop) : Prop :=
  ∀ r e, m.run r = .error e → P e

theorem failsWith_pure (a : α) : FailsWith (pure a) P :=
  nofun

theorem FailsWith.bind {f : α → Compile β} (hm : FailsWith m P) (hf : ∀ a, FailsWith (f a) P) :
    FailsWith (m >>= f) P := by
  intro r e h
  rw [StateT.run_bind] at h
  rcases Success.bind_eq_error.mp h with hfirst | ⟨⟨a, mid⟩, -, hsecond⟩
  · exact hm r e hfirst
  · exact hf a mid e hsecond

theorem failsWith_mergeParams (params : Fields Value) : FailsWith (mergeParams params) P :=
  nofun

theorem failsWith_liftCast {result : Except CastError α}
    (h : ∀ e, result = .error e → P (.cast e)) : FailsWith (liftCast result) P := by
  intro r e hrun
  cases result with
  | ok a => cases hrun
  | error failure =>
    cases hrun
    exact h failure rfl

theorem failsWith_mapM {f : β → Compile α} {items : List β}
    (h : ∀ item ∈ items, FailsWith (f item) P) : FailsWith (items.mapM f) P := by
  induction items with
  | nil => exact failsWith_pure []
  | cons item rest ih =>
    obtain ⟨hitem, hrest⟩ := List.forall_mem_cons.mp h
    rw [List.mapM_cons]
    exact hitem.bind fun _ => (ih hrest).bind fun _ => failsWith_pure _

end Compile

namespace Fragment

open Compile

variable {schema : Schema} {path : String} {P : Error → Prop}

theorem exists_field_of_cast {v : Value} {e : CastError} (h : schema.cast path v = .error e) :
    ∃ field, schema.field? path = some field ∧ field.type.cast path v = .error e := by
  unfold Schema.cast at h
  split at h
  · next field hfield => exact ⟨field, hfield, h⟩
  · cases h

theorem exists_field_of_castItem {v : Value} {e : CastError}
    (h : schema.castItem path v = .error e) :
    ∃ field, schema.field? path = some field ∧ field.type.itemType.cast path v = .error e := by
  unfold Schema.castItem at h
  split at h
  · next field hfield => exact ⟨field, hfield, h⟩
  · cases h

theorem failsWith_castAt {schema? : Option Schema} {v : Value}
    (h : ∀ schema ∈ schema?, ∀ e, schema.cast path v = .error e → P (.cast e)) :
    FailsWith (castAt schema? path v) P := by
  cases schema? with
  | none => exact failsWith_pure v
  | some schema => exact failsWith_liftCast (h schema rfl)

/-- The elements of a list or a set are cast as they are removed. -/
theorem failsWith_castRemoved {schema? : Option Schema} {v : Value}
    (h : ∀ schema ∈ schema?,
      schema.container? path = some .list ∨ schema.container? path = some .set →
        ∀ w ∈ FieldType.itemsOf v, ∀ e, schema.castItem path w = .error e → P (.cast e)) :
    FailsWith (castRemoved schema? path v) P := by
  cases schema? with
  | none => exact failsWith_pure v
  | some schema =>
    cases v with
    | list items =>
      have hitems : schema.container? path = some .list ∨ schema.container? path = some .set →
          FailsWith (liftCast (items.mapM (schema.castItem path)) >>= fun items =>
            pure (Value.list items)) P := by
        refine fun hcontainer => (failsWith_liftCast fun e he => ?_).bind fun _ => failsWith_pure _
        obtain ⟨w, hmem, hw⟩ := Success.exists_of_mapM_eq_error he
        exact h schema rfl hcontainer w hmem e hw
      unfold castRemoved
      dsimp only
      split
      · next hlist => exact hitems (Or.inl hlist)
      · next hset => exact hitems (Or.inr hset)
      · exact failsWith_pure _
    | null | bool | int | float | string | dateTime | link | map =>
      have hsingle := fun hcontainer => h schema rfl hcontainer _ (List.mem_singleton_self _)
      unfold castRemoved
      dsimp only
      split
      · next hlist => exact failsWith_liftCast (hsingle (Or.inl hlist))
      · next hset => exact failsWith_liftCast (hsingle (Or.inr hset))
      · exact failsWith_pure _

theorem failsWith_removeItems {schema? : Option Schema} {v : Value}
    (h : ∀ schema ∈ schema?,
      schema.container? path = some .list ∨ schema.container? path = some .set →
        ∀ w ∈ FieldType.itemsOf v, ∀ e, schema.castItem path w = .error e → P (.cast e)) :
    FailsWith (removeItems schema? path v) P := by
  unfold removeItems
  split
  · exact failsWith_pure _
  · exact (failsWith_castRemoved h).bind fun _ => failsWith_pure _

theorem failsWith_putItems {schema? : Option Schema} {v : Value} (nestedSet : Bool)
    (h : ∀ schema ∈ schema?, ∀ e, schema.cast path v = .error e → P (.cast e)) :
    FailsWith (putItems schema? nestedSet path v) P := by
  refine (failsWith_castAt h).bind fun w => ?_
  split <;> exact failsWith_pure _

/-- What is removed is cast element by element, any other operand as a whole. -/
theorem failsWith_valueItems {schema? : Option Schema} {kind : ChangeKind} {v : Value}
    (nestedSet : Bool)
    (hcast : kind ≠ .remove →
      ∀ schema ∈ schema?, ∀ e, schema.cast path v = .error e → P (.cast e))
    (hitem : kind = .remove → ∀ schema ∈ schema?,
      schema.container? path = some .list ∨ schema.container? path = some .set →
        ∀ w ∈ FieldType.itemsOf v, ∀ e, schema.castItem path w = .error e → P (.cast e)) :
    FailsWith (valueItems schema? nestedSet kind path v) P := by
  cases kind with
  | remove => exact failsWith_removeItems (hitem rfl)
  | put => exact failsWith_putItems nestedSet (hcast nofun)
  | set | increment | add =>
    exact (failsWith_castAt (hcast nofun)).bind fun _ => failsWith_pure _

theorem refuses_of_cast {kind : ChangeKind} (hkind : kind ≠ .remove) {v : Value} {e : CastError}
    (h : schema.cast path v = .error e) : schema.Refuses kind path v (.cast e) := by
  obtain ⟨field, hfield, hcast⟩ := exists_field_of_cast h
  refine ⟨field, e, hfield, fun htakes => ?_, rfl, FieldType.path_of_cast hcast⟩
  have haccepts : field.type.Accepts v := by
    cases kind with
    | remove => exact absurd rfl hkind
    | set | increment | add | put => exact htakes
  exact haccepts path e hcast

theorem refuses_of_castItem {v w : Value} {e : CastError}
    (hcontainer : schema.container? path = some .list ∨ schema.container? path = some .set)
    (hmem : w ∈ FieldType.itemsOf v) (h : schema.castItem path w = .error e) :
    schema.Refuses .remove path v (.cast e) := by
  obtain ⟨field, hfield, hcast⟩ := exists_field_of_castItem h
  have htype : schema.container? path = field.type.container? := by
    rw [Schema.container?, hfield, Option.bind_some]
  rw [htype] at hcontainer
  exact ⟨field, e, hfield, fun htakes => htakes hcontainer w hmem path e hcast, rfl,
    FieldType.path_of_cast hcast⟩

theorem refuses_of_valueItems (nestedSet : Bool) (kind : ChangeKind) (v : Value) :
    FailsWith (valueItems (some schema) nestedSet kind path v) (schema.Refuses kind path v) := by
  refine failsWith_valueItems nestedSet (fun hkind other hother e h => ?_)
    fun hkind other hother hcontainer w hmem e h => ?_
  all_goals obtain rfl := Option.some.inj hother
  · exact refuses_of_cast hkind h
  · exact hkind ▸ refuses_of_castItem hcontainer hmem h

end Fragment

/-- The failed cast that ended a computation. -/
def castFailure? {α : Type} : Except Error α → Option CastError
  | .error (.cast failure) => some failure
  | _ => none

theorem castFailure?_eq_some {α : Type} {result : Except Error α} {failure : CastError} :
    castFailure? result = some failure ↔ result = .error (.cast failure) := by
  constructor
  · intro h
    unfold castFailure? at h
    split at h
    · cases h
      rfl
    · cases h
  · rintro rfl
    rfl

/-! ### Statements of changes -/

namespace Statement

open Compile

/-- A change of a schema's paths by a value is refused. -/
def Refuses (s : Statement) (e : Error) : Prop :=
  ∃ schema kind path v, s.frame.schema? = some schema ∧ ⟨kind, path, .value v⟩ ∈ s.changes ∧
    schema.Refuses kind path v e

/-- The statement holds nothing but changes, and nothing has gone wrong with it. -/
structure ChangesOnly (s : Statement) : Prop where
  error : s.error? = none
  projections : s.frame.projections = []
  content : s.frame.content = []
  merge : s.frame.merge = []
  sources : s.sources = []
  lets : s.lets = []
  conditions : s.conditions = []
  changes : ∀ change ∈ s.changes, ∃ v, change.term = .value v

variable {config : Config} {s : Statement} {schema : Schema} {P : Error → Prop}

theorem failsWith_changeTexts {schema? : Option Schema} {kind : ChangeKind} {changes : List Change}
    (hterms : ∀ change ∈ changes, change.kind = kind →
      FailsWith (termTexts config schema? kind change.path change.term) P) :
    FailsWith (changeTexts config schema? kind changes) P := by
  induction changes with
  | nil => exact failsWith_pure []
  | cons change rest ih =>
    obtain ⟨hfirst, hlater⟩ := List.forall_mem_cons.mp hterms
    obtain ⟨other, path, term⟩ := change
    rw [changeTexts]
    split
    · next hkind =>
      exact (hfirst hkind).bind fun _ => (ih hlater).bind fun _ => failsWith_pure _
    · exact ih hlater

theorem failsWith_clauseText (honly : s.ChangesOnly) (hschema : s.frame.schema? = some schema)
    (clause : Clause) : FailsWith (clauseText config s clause) s.Refuses := by
  cases clause with
  | select =>
    rw [clauseText, honly.projections]
    exact failsWith_pure ""
  | «from» =>
    rw [clauseText, honly.sources]
    exact (failsWith_pure []).bind fun _ => failsWith_pure _
  | «let» =>
    rw [clauseText, honly.lets]
    exact (failsWith_pure []).bind fun _ => failsWith_pure _
  | «where» =>
    rw [clauseText, honly.conditions]
    exact (failsWith_pure []).bind fun _ => failsWith_pure _
  | content =>
    rw [clauseText, honly.content]
    exact failsWith_pure ""
  | merge =>
    rw [clauseText, honly.merge]
    exact failsWith_pure ""
  | set | increment | add | remove | put =>
    have hchanges : ∀ kind,
        FailsWith (changeTexts config s.frame.schema? kind s.changes) s.Refuses := by
      intro kind
      rw [hschema]
      refine failsWith_changeTexts fun change hmem hkind => ?_
      obtain ⟨v, hv⟩ := honly.changes change hmem
      obtain ⟨other, path, term⟩ := change
      obtain rfl : other = kind := hkind
      obtain rfl : term = .value v := hv
      exact fun r e hrun => ⟨schema, other, path, v, hschema, hmem,
        Fragment.refuses_of_valueItems _ other v r e hrun⟩
    exact (hchanges _).bind fun _ => failsWith_pure _
  | _ => exact failsWith_pure _

/-- Compiling a statement of changes succeeds, or some change is refused. -/
theorem compile_changesOnly (honly : s.ChangesOnly) (hschema : s.frame.schema? = some schema)
    (config : Config) :
    (∃ sql, s.compile config = .ok sql) ∨ ∃ e, s.compile config = .error e ∧ s.Refuses e := by
  have htext : FailsWith (statementText config s) s.Refuses := by
    rw [statementText_eq, honly.error]
    exact (failsWith_mergeParams s.params).bind fun _ =>
      (failsWith_mapM fun clause _ => failsWith_clauseText honly hschema clause).bind fun _ =>
        failsWith_pure _
  cases hcompile : s.compile config with
  | ok sql => exact Or.inl ⟨sql, rfl⟩
  | error e =>
    rw [compile, compileWith] at hcompile
    rcases Success.bind_eq_error.mp hcompile with hrun | ⟨⟨text, registry⟩, -, hpure⟩
    · exact Or.inr ⟨e, rfl, htext _ e hrun⟩
    · cases hpure

end Statement

end DocMapper
