import DocMapper.Query.Filter
/-!
Building statements clause by clause. A call that fails notes its error on the statement, and the
statement then fails to compile.
-/

namespace DocMapper

namespace Projection

/-- New projections after the old ones; a lone star gives way. -/
def extend (old new : List Projection) : List Projection :=
  match old with
  | [p] => if p.isStar then new else old ++ new
  | _ => old ++ new

end Projection

namespace ReturnClause

/-- Reads a mode against the modes allowed. Only `BEFORE` and `AFTER` keep an expression. -/
def ofMode (allowed : List String) (mode : String) (expression? : Option String) :
    Except Error ReturnClause :=
  let mode := Text.upperAscii (Text.trim mode)
  if allowed.contains mode then
    .ok ⟨mode, if mode = "BEFORE" ∨ mode = "AFTER" then expression? else none⟩
  else
    let list := "|".intercalate allowed
    .error (.invalidArgument s!"RETURN expects one of {list}, got {mode}")

/-- Cuts a mode from the expression after it. -/
def cut (text : String) : String × Option String :=
  match Text.cutAtBlank (Text.trimChars text.toList) with
  | (mode, rest) => (String.ofList mode, rest.map fun cs => String.ofList (Text.trimChars cs))

end ReturnClause

namespace Statement

def withFrame (s : Statement) (change : Frame → Frame) : Statement :=
  { s with frame := change s.frame }

def setSchema (s : Statement) (schema : Schema) : Statement :=
  s.withFrame fun f => { f with schema? := some schema }

def setParam (s : Statement) (name : String) (v : Value) : Statement :=
  s.withFrame fun f => { f with params := Fields.put f.params name v }

def setParams (s : Statement) (params : List (String × Value)) : Statement :=
  s.withFrame fun f => { f with params := Fields.merge f.params params }

def addTransform (s : Statement) (change : Row → Row) : Statement :=
  s.withFrame fun f =>
    { f with options := { f.options with transforms := f.options.transforms ++ [change] } }

def setExtra (s : Statement) (name : String) (json : Json) : Statement :=
  s.withFrame fun f =>
    { f with options := { f.options with extra := Fields.put f.options.extra name json } }

/-! ### Clauses without conditions -/

def addProjections (s : Statement) (projections : List Projection) : Statement :=
  if projections.isEmpty then s
  else s.withFrame fun f => { f with projections := Projection.extend f.projections projections }

/-- A `SELECT` of the given projections, or of everything if there are none. -/
def selectOf (projections : List Projection) : Statement :=
  select.addProjections projections

def setSource (s : Statement) (source : Source) : Statement :=
  { s with sources := [source] }

def setTargets (s : Statement) (targets : List String) : Statement :=
  { s with sources := targets.map .target }

/-- Binds a name, in the place of an earlier binding of it. -/
def bindName (s : Statement) (name : String) (v : LetValue) : Statement :=
  { s with lets := Entries.assign name v s.lets }

def groupBy (s : Statement) (fields : List String) : Statement :=
  s.withFrame fun f => { f with group := f.group ++ fields }

def orderBy (s : Statement) (property direction : String) : Statement :=
  s.withFrame fun f => { f with order := f.order ++ [⟨property, .ofText direction⟩] }

def setSkip (s : Statement) (n : UInt64) : Statement :=
  s.withFrame fun f => { f with skip? := some n }

def setLimit (s : Statement) (n : Int64) : Statement :=
  s.withFrame fun f => { f with limit? := some n }

def fetch (s : Statement) (path : String) (depth : Int64) : Statement :=
  s.withFrame fun f => { f with fetchPlan := Entries.assign path depth f.fetchPlan }

def setTimeout (s : Statement) (n : UInt64) : Statement :=
  s.withFrame fun f => { f with timeout? := some n }

def setLock (s : Statement) (mode : LockMode) : Statement :=
  s.withFrame fun f => { f with lock? := some mode }

def setParallel (s : Statement) (parallel : Bool) : Statement :=
  s.withFrame fun f => { f with parallel := parallel }

def setStrategy (s : Statement) (strategy : Strategy) : Statement :=
  s.withFrame fun f => { f with strategy? := some strategy }

def setFields (s : Statement) (fields : List String) : Statement :=
  s.withFrame fun f => { f with fields := fields }

def setInto (s : Statement) (target : String) : Statement :=
  s.withFrame fun f => { f with into? := some target }

def setUpsert (s : Statement) (upsert : Bool) : Statement :=
  s.withFrame fun f => { f with upsert := upsert }

def setReturn (s : Statement) (clause : ReturnClause) : Statement :=
  s.withFrame fun f => { f with returning? := some clause }

/-- The modes that `RETURN` has for a kind. An `INSERT` returns any expression. -/
def returnModes : StatementKind → List String
  | .delete => ["COUNT", "BEFORE"]
  | _ => ["COUNT", "BEFORE", "AFTER"]

def returnMode (s : Statement) (mode : String) (expression? : Option String) : Statement :=
  match ReturnClause.ofMode (returnModes s.kind) mode expression? with
  | .ok clause => s.setReturn clause
  | .error e => s.recordError e

def returnExpression (s : Statement) (expression : String) : Statement :=
  s.setReturn ⟨expression, none⟩

/-! ### Changes -/

def addChange (s : Statement) (kind : ChangeKind) (path : String) (term : Term) : Statement :=
  { s with changes := s.changes ++ [⟨kind, path, term⟩] }

def addChanges (s : Statement) (kind : ChangeKind) (pairs : List (String × Value)) : Statement :=
  { s with changes := s.changes ++ pairs.map fun pair => ⟨kind, pair.1, .value pair.2⟩ }

def put (s : Statement) (path : String) (entries : List (String × Value)) : Statement :=
  if entries.isEmpty then s else s.addChange .put path (.value (.map (Fields.ofList entries)))

/-- The changes of a map: its entries are paths, and under `put` each holds a map of entries. -/
def change (s : Statement) (kind : ChangeKind) (changes : Fields Value) : Statement :=
  if kind = .put then
    changes.foldl
      (fun s entry =>
        match entry.2 with
        | .map entries => s.put entry.1 entries
        | other => s.recordError (.invalidArgument
            s!"put on `{entry.1}` expects a map of entries, got {other.literal}"))
      s
  else s.addChanges kind changes

/-- Replaces the record by a document. -/
def content (s : Statement) : Value → Statement
  | .map document => s.withFrame fun f => { f with content := f.content ++ [document] }
  | other => s.recordError (.invalidArgument s!"content expects a map, got {other.literal}")

def merge (s : Statement) : Value → Statement
  | .map document => s.withFrame fun f => { f with merge := f.merge ++ [document] }
  | other => s.recordError (.invalidArgument s!"merge expects a map, got {other.literal}")

/-! ### Conditions -/

/-- The conditions of a statement and all its parameters. -/
def filter (s : Statement) : Filter :=
  ⟨s.conditions, s.params⟩

def setFilter (s : Statement) (filter : Filter) : Statement :=
  { s with frame := { s.frame with params := filter.params }, conditions := filter.clauses }

/-- Adds a condition, joined by `logic` to those before it. -/
def pushCondition (s : Statement) (logic : Logic) (condition : Condition) : Statement :=
  s.attempt fun s => (Filter.add logic s.filter condition).map s.setFilter

def andWhere (s : Statement) (condition : Condition) : Statement :=
  s.pushCondition .and condition

def orWhere (s : Statement) (condition : Condition) : Statement :=
  s.pushCondition .or condition

/-- Adds the conditions that `build` puts on a new statement of the same kind, as a group. -/
def pushGroup (s : Statement) (logic : Logic) (build : Statement → Statement) : Statement :=
  s.attempt fun s =>
    let sub := build (fresh s.kind)
    match sub.error? with
    | some e => .error e
    | none => .ok (s.setFilter (s.filter.pushGroup logic sub.filter))

/-- Several conditions given at once are each joined by `logic`. A group keeps its members, takes
`logic` as its own connective and is joined by `AND`. -/
def joinBy (s : Statement) (logic : Logic) : Condition → Statement
  | .all items => items.foldl (fun s item => s.pushCondition logic item) s
  | .group _ members => s.pushCondition .and (.group logic members)
  | other => s.pushCondition logic other

end Statement

end DocMapper
