import DocMapper.Calendar
import DocMapper.Fields
import DocMapper.RecordId
/-!
Values held by records, bound to parameters and written into statements.
-/

namespace DocMapper

inductive Value where
  | null
  | bool (b : Bool)
  | int (n : Int64)
  | float (d : Double)
  | string (s : String)
  | dateTime (t : DateTime)
  | link (id : RecordId)
  | list (items : List Value)
  | map (entries : List (String × Value))
  deriving Inhabited

namespace Value

def isNull : Value → Bool
  | .null => true
  | _ => false

/-- Embedded documents and maps. -/
def isStructured : Value → Bool
  | .map _ => true
  | _ => false

def typeName : Value → String
  | .null => "null"
  | .bool _ => "boolean"
  | .int _ => "integer"
  | .float _ => "float"
  | .string _ => "string"
  | .dateTime _ => "datetime"
  | .link _ => "link"
  | .list _ => "list"
  | .map _ => "map"

def string? : Value → Option String
  | .string s => some s
  | _ => none

def int? : Value → Option Int64
  | .int n => some n
  | _ => none

/-- The number an integer or a double stands for, as a double. -/
def double? : Value → Option Double
  | .int n => some (Double.ofInt n.toInt)
  | .float d => some d
  | _ => none

def list? : Value → Option (List Value)
  | .list items => some items
  | _ => none

def map? : Value → Option (Fields Value)
  | .map entries => some entries
  | _ => none

mutual

/-- Equality of values. Doubles are compared as numbers, so NaN equals nothing; an integer never
equals a double. -/
def eqv : Value → Value → Bool
  | .null, .null => true
  | .bool a, .bool b => a = b
  | .int a, .int b => a = b
  | .float a, .float b => a.eqv b
  | .string a, .string b => a = b
  | .dateTime a, .dateTime b => a = b
  | .link a, .link b => a = b
  | .list as, .list bs => eqvItems as bs
  | .map as, .map bs => eqvEntries as bs
  | _, _ => false

def eqvItems : List Value → List Value → Bool
  | [], [] => true
  | a :: as, b :: bs => eqv a b && eqvItems as bs
  | _, _ => false

def eqvEntries : List (String × Value) → List (String × Value) → Bool
  | [], [] => true
  | (k, a) :: as, (l, b) :: bs => k = l && eqv a b && eqvEntries as bs
  | _, _ => false

end

def occursIn (v : Value) (items : List Value) : Bool :=
  items.any fun item => item.eqv v

def eqvOption : Option Value → Option Value → Bool
  | none, none => true
  | some a, some b => a.eqv b
  | _, _ => false

end Value

end DocMapper
