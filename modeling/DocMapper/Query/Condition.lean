import DocMapper.Query.Statement
import DocMapper.Value.Json
/-!
Conditions as they are given by callers, before their operators are read, and the reading of
condition maps.
-/

namespace DocMapper

inductive Condition where
  /-- A comparison; its operator is read when it is pushed. -/
  | compare (path op : String) (operand : Term)
  /-- Conditions that share the connective of the call that pushes them. -/
  | all (items : List Condition)
  /-- Conditions in parentheses, joined by `logic`. -/
  | group (logic : Logic) (members : List Condition)
  /-- Text that is taken as it is, and the parameters it needs. -/
  | raw (sql : String) (params : Fields Value)
  /-- Something that was no condition. -/
  | invalid (e : Error)

namespace Condition

def ofComparison (path op : String) (v : Value) : Condition :=
  .compare path op (.value v)

/-- A single condition stands for itself. -/
def singleOrAll : List Condition → Condition
  | [single] => single
  | items => .all items

def startsWithDollar (key : String) : Bool :=
  key.toList.head? = some '$'

/-- Whether a map is read as operators of one path, and not as a value. -/
def isOperatorMap (entries : List (String × Value)) : Bool :=
  !entries.isEmpty && entries.all fun entry => startsWithDollar entry.1

mutual

/-- The conditions of a path: one comparison per operator of an operator map, and equality with any
other value. Under `$and` and `$or` the same path is read against each listed value. -/
def forPath (path : String) : Value → Condition
  | .map entries =>
    if isOperatorMap entries then singleOrAll (forOperators path entries)
    else ofComparison path "$eq" (.map entries)
  | other => ofComparison path "$eq" other

def forOperators (path : String) : List (String × Value) → List Condition
  | [] => []
  | (op, operand) :: rest =>
    let first :=
      match Logic.ofKey? op with
      | some logic =>
        .group logic (match operand with
          | .list values => forEach path values
          | other => [forPath path other])
      | none => ofComparison path op operand
    first :: forOperators path rest

def forEach (path : String) : List Value → List Condition
  | [] => []
  | v :: rest => forPath path v :: forEach path rest

end

mutual

/-- A map holds the conditions of its entries, and a list is a group that joins its items by `AND`.
No other value is a condition. -/
def ofValue : Value → Condition
  | .map entries => singleOrAll (ofEntries entries)
  | .list items => .group .and (ofItems items)
  | other => .invalid (.invalidArgument s!"condition must be a map, got {other.literal}")

/-- Under `$and` and `$or` stand further conditions, under any other key the value of a path. -/
def ofEntries : List (String × Value) → List Condition
  | [] => []
  | (key, v) :: rest =>
    let first :=
      match Logic.ofKey? key with
      | some logic =>
        .group logic (match v with
          | .list values => ofItems values
          | other => [ofValue other])
      | none => forPath key v
    first :: ofEntries rest

def ofItems : List Value → List Condition
  | [] => []
  | v :: rest => ofValue v :: ofItems rest

end

def ofMap (entries : Fields Value) : Condition :=
  singleOrAll (ofEntries entries)

def ofJson (json : Json) : Condition :=
  ofValue (.ofJson json)

end Condition

end DocMapper
