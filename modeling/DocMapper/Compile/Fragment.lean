import DocMapper.Compile.Clause
import DocMapper.Compile.Inline
import DocMapper.Compile.Registry
import DocMapper.Query.Statement
/-!
The clauses that hold no further statement, and the pieces from which the others are put together.
An absent clause is the empty text.
-/

namespace DocMapper

/-- Writing text while parameters are bound; the first error ends it. -/
abbrev Compile (α : Type) := StateT Registry (Except Error) α

namespace Compile

def fail {α : Type} (e : Error) : Compile α :=
  throw e

def bind (v : Value) : Compile String :=
  modifyGet fun r => r.bind v

def bindAll : List Value → Compile (List String)
  | [] => pure []
  | v :: rest => do
    let token ← bind v
    let tokens ← bindAll rest
    pure (token :: tokens)

def mergeParams (params : Fields Value) : Compile Unit :=
  modify fun r => r.merge params

/-- Text with the parameters known so far filled in. -/
def fill (text : String) : Compile String := do
  let r ← get
  pure (Inline.fill text r.params)

def liftCast {α : Type} (result : Except CastError α) : Compile α :=
  match result with
  | .ok a => pure a
  | .error e => fail (.cast e)

end Compile

namespace Fragment

def commaList (items : List String) : String :=
  ", ".intercalate items

/-- A keyword and a list of items, or nothing without items. -/
def listClause (keyword : String) (items : List String) : String :=
  if items.isEmpty then "" else keyword ++ " " ++ commaList items

def bracketed (items : List String) : String :=
  "[" ++ commaList items ++ "]"

/-- A sub-statement in parentheses; one without text stays without. -/
def parenthesized (text : String) : String :=
  if text.isEmpty then "" else "(" ++ text ++ ")"

/-- Several addresses are listed in brackets. Of any other targets only the first counts. -/
def targetClause (keyword : String) (allowList : Bool) (targets : List String) : String :=
  match targets with
  | [] => ""
  | first :: _ =>
    if allowList && 1 < targets.length && RecordId.allValid targets then
      keyword ++ " " ++ bracketed targets
    else keyword ++ " " ++ first

/-- The clauses joined by the separator. A single clause is no statement. -/
def joined (separator : String) (clauses : List String) : String :=
  let present := clauses.filter fun clause => !clause.isEmpty
  if present.length < 2 then "" else separator.intercalate present

/-! ### Conditions -/

/-- Tests with their connectives, the first without its own. -/
def joinedTests : List (Logic × String) → String
  | [] => ""
  | (_, first) :: rest =>
    " ".intercalate (first :: rest.map fun part => part.1.sql ++ " " ++ part.2)

def castForQuery (schema? : Option Schema) (path : String) (op : Operator) (v : Value) :
    Compile Value :=
  match schema? with
  | some schema => Compile.liftCast (schema.castForQuery path op v)
  | none => pure v

def comparison (path operator operand : String) : String :=
  path ++ " " ++ operator ++ " " ++ operand

/-- A comparison binds its operand; the items of a list are bound one by one. -/
def compareText (schema? : Option Schema) (path : String) (op : Operator) (v : Value) :
    Compile String := do
  match ← castForQuery schema? path op v with
  | .list items =>
    match ← Compile.bindAll items with
    | [token] => pure (comparison path op.sql token)
    | tokens => pure (comparison path op.sql (bracketed tokens))
  | single =>
    let token ← Compile.bind single
    pure (comparison path op.sql token)

def membershipText (schema? : Option Schema) (path : String) (op : Operator) (v : Value) :
    Compile String := do
  match ← castForQuery schema? path op v with
  | .list items =>
    let tokens ← Compile.bindAll items
    pure (comparison path op.sql (bracketed tokens))
  | single =>
    let token ← Compile.bind single
    pure (comparison path op.sql token)

def rangeText (schema? : Option Schema) (path : String) (low high : Value) : Compile String := do
  let bounds ← castForQuery schema? path .between (.list [low, high])
  let (low, high) := match bounds with
    | .list [castLow, castHigh] => (castLow, castHigh)
    | _ => (low, high)
  let lowToken ← Compile.bind low
  let highToken ← Compile.bind high
  pure (path ++ " BETWEEN " ++ lowToken ++ " AND " ++ highToken)

/-! ### Changes -/

def castAt (schema? : Option Schema) (path : String) (v : Value) : Compile Value :=
  match schema? with
  | some schema => Compile.liftCast (schema.cast path v)
  | none => pure v

def assignment (path operand : String) : String :=
  path ++ " = " ++ operand

/-- Elements removed from a list are cast one by one; keys removed from a map are not cast. -/
def castRemoved (schema? : Option Schema) (path : String) (v : Value) : Compile Value :=
  match schema? with
  | none => pure v
  | some schema =>
    match schema.container? path with
    | some .list | some .set =>
      match v with
      | .list items => do
        let items ← Compile.liftCast (items.mapM (schema.castItem path))
        pure (.list items)
      | single => Compile.liftCast (schema.castItem path single)
    | _ => pure v

/-- Embedded documents are removed one by one. -/
def removeItems (schema? : Option Schema) (path : String) (v : Value) : Compile (List String) :=
  match v with
  | .list (.map entries :: rest) =>
    pure ((Value.map entries :: rest).map fun item => assignment path item.literal)
  | other => do
    let cast ← castRemoved schema? path other
    pure [assignment path cast.literal]

/-- The entry put under a key, as an assignment to a longer path or as the operand pair of `PUT`. -/
def putItem (nestedSet : Bool) (path : String) (entry : String × Value) : String :=
  if nestedSet then assignment (path ++ "." ++ entry.1) entry.2.literal
  else assignment path ((Value.string entry.1).literal ++ ", " ++ entry.2.literal)

/-- Anything but a map puts nothing. -/
def putItems (schema? : Option Schema) (nestedSet : Bool) (path : String) (v : Value) :
    Compile (List String) := do
  match ← castAt schema? path v with
  | .map entries => pure (entries.map (putItem nestedSet path))
  | _ => pure []

def valueItems (schema? : Option Schema) (nestedSet : Bool) (kind : ChangeKind) (path : String)
    (v : Value) : Compile (List String) :=
  match kind with
  | .remove => removeItems schema? path v
  | .put => putItems schema? nestedSet path v
  | _ => do
    let cast ← castAt schema? path v
    pure [assignment path cast.literal]

def changeKeyword (nestedSet : Bool) (kind : ChangeKind) : String :=
  if kind = .put ∧ nestedSet then ChangeKind.set.sql else kind.sql

/-! ### The frame -/

def projectionText (p : Projection) : Compile String := do
  let text ←
    match p.expression with
    | .field text => pure text
    | .sql text params => do
      Compile.mergeParams params
      pure text
  Compile.fill (match p.label? with
    | some label => text ++ " AS " ++ label
    | none => text)

def projectionTexts : List Projection → Compile (List String)
  | [] => pure []
  | p :: rest => do
    let text ← projectionText p
    let texts ← projectionTexts rest
    pure (if text.isEmpty then texts else text :: texts)

def selectClause (projections : List Projection) : Compile String := do
  if projections.isEmpty then pure ""
  else
    let items ← projectionTexts projections
    pure ("SELECT " ++ commaList items)

def castEntries (schema? : Option Schema) : List (String × Value) → Compile (List (String × Value))
  | [] => pure []
  | (path, v) :: rest => do
    let v ← castAt schema? path v
    let entries ← castEntries schema? rest
    pure ((path, v) :: entries)

/-- Documents are merged, the later over the earlier, and then cast. -/
def documentClause (schema? : Option Schema) (keyword : String) (documents : List (Fields Value)) :
    Compile String := do
  if documents.isEmpty then pure ""
  else
    let entries ← castEntries schema? (documents.foldl Fields.merge [])
    pure (keyword ++ " " ++ (Value.map entries).literal)

def orderText (item : OrderItem) : String :=
  item.property ++ " " ++ item.direction.sql

def returnText (clause : ReturnClause) : String :=
  match clause.expression? with
  | some expression => "RETURN " ++ clause.mode ++ " " ++ expression
  | none => "RETURN " ++ clause.mode

def optional {α : Type} (text : α → String) : Option α → String
  | some a => text a
  | none => ""

end Fragment

namespace Frame

/-- Whether a clause takes part. In an `UPDATE`, `CONTENT` keeps out `MERGE`, and both keep out the
single changes. -/
def isActive (frame : Frame) (clause : Clause) : Bool :=
  match frame.kind with
  | .update =>
    match clause with
    | .set | .increment | .add | .remove | .put => frame.content.isEmpty && frame.merge.isEmpty
    | .merge => frame.content.isEmpty
    | _ => true
  | _ => true

def activeClauses (frame : Frame) : List Clause :=
  frame.kind.clauses.filter frame.isActive

/-- The clauses that need no parameters and no casts. Only the first field of a grouping counts. -/
def plainClause (frame : Frame) : Clause → String
  | .traverse => Fragment.listClause "TRAVERSE" frame.fields
  | .insert => "INSERT"
  | .delete => "DELETE"
  | .update => Fragment.targetClause "UPDATE" true frame.targets
  | .into => Fragment.optional (fun target => "INTO " ++ target) frame.into?
  | .group => Fragment.optional (fun field => "GROUP BY " ++ field) frame.group.head?
  | .order => Fragment.listClause "ORDER BY" (frame.order.map Fragment.orderText)
  | .skip => Fragment.optional (fun n => s!"SKIP {n.toNat}") frame.skip?
  | .limit => Fragment.optional (fun n => s!"LIMIT {n.toInt}") frame.limit?
  | .fetchPlan =>
    if frame.fetchPlan.isEmpty then ""
    else
      "FETCHPLAN " ++ " ".intercalate (frame.fetchPlan.map fun entry =>
        s!"{entry.1}:{entry.2.toInt}")
  | .timeout => Fragment.optional (fun n => s!"TIMEOUT {n.toNat}") frame.timeout?
  | .lock => Fragment.optional (fun mode => "LOCK " ++ mode.sql) frame.lock?
  | .parallel => if frame.parallel then "PARALLEL" else ""
  | .upsert => if frame.upsert then "UPSERT" else ""
  | .strategy => Fragment.optional (fun strategy => "STRATEGY " ++ strategy.sql) frame.strategy?
  | .return => Fragment.optional Fragment.returnText frame.returning?
  | _ => ""

end Frame

end DocMapper
