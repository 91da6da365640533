import DocMapper.Error
import DocMapper.Text.Blank
/-!
Declared types of fields and the cast of values to them. `Conforms` says which values a type holds
without mentioning the cast.
-/

namespace DocMapper

inductive FieldType where
  | any
  | boolean
  | integer
  | double
  | string
  | dateTime
  | link
  | embedded
  | list (item : FieldType)
  | set (item : FieldType)
  | map (item : FieldType)
  deriving DecidableEq

/-- The shape of a field that holds many values. -/
inductive Container where
  | list
  | set
  | map
  deriving DecidableEq

def Container.name : Container → String
  | .list => "list"
  | .set => "set"
  | .map => "map"

namespace FieldType

/-- The type name of the database. -/
def name : FieldType → String
  | .any => "Any"
  | .boolean => "Boolean"
  | .integer => "Integer"
  | .double => "Double"
  | .string => "String"
  | .dateTime => "DateTime"
  | .link => "Link"
  | .embedded => "Embedded"
  | .list .link => "LinkList"
  | .list _ => "EmbeddedList"
  | .set .link => "LinkSet"
  | .set _ => "EmbeddedSet"
  | .map .link => "LinkMap"
  | .map _ => "EmbeddedMap"

def container? : FieldType → Option Container
  | .list _ => some .list
  | .set _ => some .set
  | .map _ => some .map
  | _ => none

/-- The type of the items of a container, and any other type itself. -/
def itemType : FieldType → FieldType
  | .list item | .set item | .map item => item
  | other => other

def boolOfWord? : String → Option Bool
  | "true" | "1" => some true
  | "false" | "0" => some false
  | _ => none

/-- The nearest 64-bit integer. -/
def clampInt64 (n : Int) : Int64 :=
  Int64.ofInt (max Int64.minValue.toInt (min n Int64.maxValue.toInt))

def castBoolean? : Value → Option Bool
  | .bool b => some b
  | .int n => if n = 0 then some false else if n = 1 then some true else none
  | .string s => boolOfWord? s
  | _ => none

/-- Whole doubles beyond the range of integers become its nearest end. -/
def castInteger? : Value → Option Int64
  | .int n => some n
  | .float d => d.toInt?.map clampInt64
  | .string s => Number.readInt64? (Text.trimChars s.toList)
  | _ => none

def castDouble? : Value → Option Double
  | .float d => some d
  | .int n => some (Double.ofInt n.toInt)
  | .string s => Number.readDouble? (Text.trimChars s.toList)
  | _ => none

def castString? (v : Value) : Option String :=
  match v with
  | .string s => some s
  | .int _ | .float _ | .bool _ => some v.plainText
  | .link id => some id.text
  | .dateTime t => some t.text
  | _ => none

def castDateTime? : Value → Option DateTime
  | .dateTime t => some t
  | .string s => DateTime.ofText? s
  | .int n => DateTime.ofUnix? n.toInt
  | _ => none

/-- A link may be given by a document that names its address. -/
def castLink? : Value → Option RecordId
  | .link id => some id
  | .string s => RecordId.ofText? s
  | .map entries =>
    match Fields.get? entries "@rid" with
    | some (.link id) => some id
    | some (.string s) => RecordId.ofText? s
    | _ => none
  | _ => none

def castEmbedded? : Value → Option (Fields Value)
  | .map entries => some entries
  | _ => none

def castScalar? (ty : FieldType) (v : Value) : Option Value :=
  match ty with
  | .boolean => (castBoolean? v).map .bool
  | .integer => (castInteger? v).map .int
  | .double => (castDouble? v).map .float
  | .string => (castString? v).map .string
  | .dateTime => (castDateTime? v).map .dateTime
  | .link => (castLink? v).map .link
  | .embedded => (castEmbedded? v).map .map
  | _ => none

/-- The items of a list; any other value is a list of itself. -/
def itemsOf : Value → List Value
  | .list items => items
  | single => [single]

/-- The first of each group of equal values, except those in `seen`. -/
def distinctFrom (seen : List Value) : List Value → List Value
  | [] => []
  | v :: rest =>
    if v.occursIn seen then distinctFrom seen rest else v :: distinctFrom (seen ++ [v]) rest

def distinct (items : List Value) : List Value :=
  distinctFrom [] items

def castOr (ty : FieldType) (path : String) (v : Value) (result : Option Value) :
    Except CastError Value :=
  match result with
  | some w => .ok w
  | none => .error (.ofValue ty.name v path)

/-- Casts a value to a type; the path is only reported. Null is kept by every type. -/
def cast (ty : FieldType) (path : String) (v : Value) : Except CastError Value :=
  if v.isNull then .ok v
  else
    match ty with
    | .any => .ok v
    | .list item => (itemsOf v).mapM (cast item path) |>.map .list
    | .set item => (itemsOf v).mapM (cast item path) |>.map fun items => .list (distinct items)
    | .map item =>
      match v with
      | .map entries =>
        entries.mapM (fun entry => (cast item path entry.2).map (entry.1, ·)) |>.map .map
      | other => .error (.ofValue (FieldType.map item).name other path)
    | .boolean => castOr .boolean path v (castScalar? .boolean v)
    | .integer => castOr .integer path v (castScalar? .integer v)
    | .double => castOr .double path v (castScalar? .double v)
    | .string => castOr .string path v (castScalar? .string v)
    | .dateTime => castOr .dateTime path v (castScalar? .dateTime v)
    | .link => castOr .link path v (castScalar? .link v)
    | .embedded => castOr .embedded path v (castScalar? .embedded v)

/-- The values a field of a type holds: null, a value of the type's own variant, or a container of
such values, in which a set has no two equal items. -/
def Conforms : FieldType → Value → Prop
  | _, .null => True
  | .any, _ => True
  | .boolean, .bool _ => True
  | .integer, .int _ => True
  | .double, .float _ => True
  | .string, .string _ => True
  | .dateTime, .dateTime _ => True
  | .link, .link _ => True
  | .embedded, .map _ => True
  | .list item, .list items => ∀ v ∈ items, item.Conforms v
  | .set item, .list items =>
    (∀ v ∈ items, item.Conforms v) ∧ items.Pairwise fun a b => a.eqv b = false
  | .map item, .map entries => ∀ entry ∈ entries, item.Conforms entry.2
  | _, _ => False

end FieldType

end DocMapper
