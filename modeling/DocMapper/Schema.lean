import DocMapper.Entries
import DocMapper.Query.Operator
import DocMapper.Schema.Field
/-!
The schema of a class: its fields in the order of their declaration. A path that is not declared
takes any value.
-/

namespace DocMapper

structure Schema where
  className : String
  fields : List (String × Field)

namespace Schema

def empty (className : String) : Schema :=
  ⟨className, []⟩

/-- Declares a field, in the place of an earlier one of the same name. -/
def declare (schema : Schema) (name : String) (field : Field) : Schema :=
  { schema with fields := Entries.assign name field schema.fields }

def field? (schema : Schema) (path : String) : Option Field :=
  schema.fields.lookup path

def has (schema : Schema) (path : String) : Bool :=
  (schema.field? path).isSome

def paths (schema : Schema) : List String :=
  schema.fields.map Prod.fst

def requiredPaths (schema : Schema) : List String :=
  (schema.fields.filter (·.2.required)).map Prod.fst

def isRequired (schema : Schema) (path : String) : Bool :=
  (schema.field? path).any (·.required)

def default? (schema : Schema) (path : String) : Option Value :=
  (schema.field? path).bind (·.default?)

def container? (schema : Schema) (path : String) : Option Container :=
  (schema.field? path).bind (·.type.container?)

def cast (schema : Schema) (path : String) (v : Value) : Except CastError Value :=
  match schema.field? path with
  | some field => field.type.cast path v
  | none => .ok v

def castItem (schema : Schema) (path : String) (v : Value) : Except CastError Value :=
  match schema.field? path with
  | some field => field.type.itemType.cast path v
  | none => .ok v

/-- Casts the operands of a type, one by one if they are listed. -/
def castOperands (type : FieldType) (path : String) : Value → Except CastError Value
  | .list items => (items.mapM (type.itemType.cast path)).map .list
  | single => type.itemType.cast path single

/-- Casts a value that a path is compared with. Patterns, class names and null tests are left
alone, lists of operands are cast item by item, and elsewhere a list is cast whole if the path
holds a container. -/
def castForQuery (schema : Schema) (path : String) (op : Operator) (v : Value) :
    Except CastError Value :=
  match schema.field? path with
  | none => .ok v
  | some field =>
    match op with
    | .like | .matches | .instanceOf | .is | .isNot => .ok v
    | .isIn | .notIn | .between => castOperands field.type path v
    | _ =>
      match v with
      | .list items =>
        if field.type.container?.isSome then field.type.cast path (.list items)
        else field.type.itemType.cast path (.list items)
      | other => field.type.itemType.cast path other

def failure? (schema : Schema) (path : String) (v : Value) : Option PathFailure :=
  (schema.field? path).bind (·.failure? path v)

end Schema

end DocMapper
