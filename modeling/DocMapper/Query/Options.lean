import DocMapper.Json.Text
import DocMapper.Query.Builder
/-!
Setting clauses by name from plain data. A name that is a clause of another kind is an error, and
any other name is kept as an option for the execution.
-/

namespace DocMapper

/-! ### Reading operands; `name` is the option that an error speaks of -/

namespace Operand

def fail {α : Type} (message : String) : Except Error α :=
  .error (.invalidArgument message)

def stringItem (name : String) : Json → Except Error String
  | .str s => .ok s
  | other => fail s!"{name} expects strings, got {other.text}"

/-- A list of strings, or one string with commas between the parts. -/
def strings (name : String) : Json → Except Error (List String)
  | .str s => .ok (((Text.split ',' s).map Text.trim).filter (!·.isEmpty))
  | .arr items => items.mapM (stringItem name)
  | other => fail s!"{name} expects a string or a list of strings, got {other.text}"

def string (name : String) : Json → Except Error String
  | .str s => .ok s
  | other => fail s!"{name} expects a string, got {other.text}"

def natural (name : String) (json : Json) : Except Error UInt64 :=
  match json with
  | .int n =>
    match Number.uint64? n with
    | some n => .ok n
    | none => fail s!"{name} expects a non-negative integer, got {json.text}"
  | other => fail s!"{name} expects a non-negative integer, got {other.text}"

def integer (name : String) (json : Json) : Except Error Int64 :=
  match json with
  | .int n =>
    match Number.int64? n with
    | some n => .ok n
    | none => fail s!"{name} expects an integer, got {json.text}"
  | other => fail s!"{name} expects an integer, got {other.text}"

def bool (name : String) : Json → Except Error Bool
  | .bool b => .ok b
  | other => fail s!"{name} expects a boolean, got {other.text}"

def map (name : String) (json : Json) : Except Error (Fields Value) :=
  match Value.ofJson json with
  | .map entries => .ok entries
  | other => fail s!"{name} expects an object, got {other.literal}"

def object (name : String) : Json → Except Error (Fields Json)
  | .obj entries => .ok entries
  | _ => fail s!"{name} expects an object"

end Operand

namespace Statement

def clauseNames : List String :=
  ["select", "traverse", "update", "into", "from", "let", "where", "while", "group", "order",
   "skip", "limit", "fetchPlan", "timeout", "lock", "parallel", "set", "increment", "add",
   "remove", "put", "content", "merge", "upsert", "return", "strategy"]

/-- Orders by the first word of an item, in the direction of the second. -/
def orderByItem (s : Statement) (item : String) : Statement :=
  match Text.words item with
  | [] => s
  | [property] => s.orderBy property "ASC"
  | property :: direction :: _ => s.orderBy property direction

def orderOption (s : Statement) (name : String) : Json → Except Error Statement
  | .obj entries =>
    .ok (entries.foldl (fun s entry => s.orderBy entry.1 (entry.2.str?.getD "ASC")) s)
  | other => do
    let items ← Operand.strings name other
    pure (items.foldl orderByItem s)

def letOption (s : Statement) (name : String) (json : Json) : Except Error Statement := do
  let entries ← Operand.object name json
  entries.foldlM (fun s entry => do
    let text ← Operand.string name entry.2
    pure (s.bindName entry.1 (.expression text))) s

def fetchOption (s : Statement) (name : String) (json : Json) : Except Error Statement := do
  let entries ← Operand.object name json
  entries.foldlM (fun s entry => do
    let depth ← Operand.integer name entry.2
    pure (s.fetch entry.1 depth)) s

def sourceOption (s : Statement) (name : String) (json : Json) : Except Error Statement := do
  let target ← Operand.string name json
  pure (s.setSource (.target target))

def lockOption (s : Statement) (name : String) (json : Json) : Except Error Statement := do
  let mode ← Operand.string name json
  pure (s.setLock (.ofText mode))

def limitOption (s : Statement) (name : String) (json : Json) : Except Error Statement := do
  let n ← Operand.integer name json
  pure (s.setLimit n)

def timeoutOption (s : Statement) (name : String) (json : Json) : Except Error Statement := do
  let n ← Operand.natural name json
  pure (s.setTimeout n)

def returnOption (s : Statement) (name : String) (json : Json) : Except Error Statement := do
  let text ← Operand.string name json
  let (mode, expression?) := ReturnClause.cut text
  pure (s.returnMode mode expression?)

def selectOption? (s : Statement) (name : String) (json : Json) :
    Option (Except Error Statement) :=
  match name with
  | "select" => some do
    let fields ← Operand.strings name json
    pure (s.addProjections (fields.map .ofText))
  | "from" => some (s.sourceOption name json)
  | "let" => some (s.letOption name json)
  | "where" => some (.ok (s.andWhere (.ofJson json)))
  | "group" => some do
    let fields ← Operand.strings name json
    pure (s.groupBy fields)
  | "order" => some (s.orderOption name json)
  | "skip" => some do
    let n ← Operand.natural name json
    pure (s.setSkip n)
  | "limit" => some (s.limitOption name json)
  | "fetchPlan" => some (s.fetchOption name json)
  | "timeout" => some (s.timeoutOption name json)
  | "lock" => some (s.lockOption name json)
  | "parallel" => some do
    let b ← Operand.bool name json
    pure (s.setParallel b)
  | _ => none

def insertOption? (s : Statement) (name : String) (json : Json) :
    Option (Except Error Statement) :=
  match name with
  | "into" => some do
    let target ← Operand.string name json
    pure (s.setInto target)
  | "set" => some do
    let changes ← Operand.map name json
    pure (s.addChanges .set changes)
  | "from" => some (s.sourceOption name json)
  | "return" => some do
    let expression ← Operand.string name json
    pure (s.returnExpression expression)
  | _ => none

def updateOption? (s : Statement) (name : String) (json : Json) :
    Option (Except Error Statement) :=
  match ChangeKind.all.find? fun kind => kind.name = name with
  | some kind => some do
    let changes ← Operand.map name json
    pure (s.change kind changes)
  | none =>
    match name with
    | "content" => some do
      let document ← Operand.map name json
      pure (s.content (.map document))
    | "merge" => some do
      let document ← Operand.map name json
      pure (s.merge (.map document))
    | "upsert" => some do
      let b ← Operand.bool name json
      pure (s.setUpsert b)
    | "return" => some (s.returnOption name json)
    | "where" => some (.ok (s.andWhere (.ofJson json)))
    | "lock" => some (s.lockOption name json)
    | "limit" => some (s.limitOption name json)
    | "timeout" => some (s.timeoutOption name json)
    | _ => none

def deleteOption? (s : Statement) (name : String) (json : Json) :
    Option (Except Error Statement) :=
  match name with
  | "from" => some (s.sourceOption name json)
  | "return" => some (s.returnOption name json)
  | "where" => some (.ok (s.andWhere (.ofJson json)))
  | "lock" => some (s.lockOption name json)
  | "limit" => some (s.limitOption name json)
  | "timeout" => some (s.timeoutOption name json)
  | _ => none

def traverseOption? (s : Statement) (name : String) (json : Json) :
    Option (Except Error Statement) :=
  match name with
  | "traverse" => some do
    let fields ← Operand.strings name json
    pure (if fields.isEmpty then s else s.setFields fields)
  | "from" => some (s.sourceOption name json)
  | "while" | "where" => some (.ok (s.andWhere (.ofJson json)))
  | "limit" => some (s.limitOption name json)
  | "strategy" => some do
    let word ← Operand.string name json
    pure (s.setStrategy (.ofText word))
  | _ => none

/-- The statement with one clause set, or nothing if its kind has no such clause. -/
def clauseOption? (s : Statement) (name : String) (json : Json) :
    Option (Except Error Statement) :=
  match s.kind with
  | .select => s.selectOption? name json
  | .insert => s.insertOption? name json
  | .update => s.updateOption? name json
  | .delete => s.deleteOption? name json
  | .traverse => s.traverseOption? name json

/-- Sets a clause by name, or keeps an option. Nothing is set once something has gone wrong. -/
def setOption (s : Statement) (name : String) (json : Json) : Statement :=
  s.attempt fun s =>
    match s.clauseOption? name json with
    | some result => result
    | none =>
      if clauseNames.contains name then .error (.unsupportedClause s.kind name)
      else .ok (s.setExtra name json)

def setOptions (s : Statement) (options : Fields Json) : Statement :=
  options.foldl (fun s option => s.setOption option.1 option.2) s

end Statement

end DocMapper
