import DocMapper.Json
import DocMapper.Query.Keyword
import DocMapper.Schema
/-!
Statements as data. The parts that may hold further statements (sources, bindings, conditions and
changes) stand beside a frame of parts that never do.
-/

namespace DocMapper

/-- A selected expression: text whose parameters are filled in, or a finished fragment with the
parameters it brings along. -/
inductive Expression where
  | field (text : String)
  | sql (text : String) (params : Fields Value)

structure Projection where
  expression : Expression
  label? : Option String

namespace Projection

def ofText (text : String) : Projection :=
  ⟨.field text, none⟩

def aliased (text label : String) : Projection :=
  ⟨.field text, some label⟩

def isStar : Projection → Bool
  | ⟨.field text, none⟩ => text = "*"
  | _ => false

end Projection

structure OrderItem where
  property : String
  direction : Direction
  deriving DecidableEq

structure ReturnClause where
  mode : String
  expression? : Option String
  deriving DecidableEq

/-- What a statement hands on to its execution: changes to every returned row, in order, and
options that pass through unread. -/
structure StatementOptions where
  transforms : List (Row → Row)
  extra : Fields Json

namespace StatementOptions

def empty : StatementOptions :=
  ⟨[], []⟩

/-- Changes a row by every transform in turn. -/
def apply (options : StatementOptions) (row : Row) : Row :=
  options.transforms.foldl (fun row change => change row) row

end StatementOptions

/-- The parts of a statement that hold no other statement. An empty list or `none` stands for an
absent clause. -/
structure Frame where
  kind : StatementKind
  projections : List Projection
  fields : List String
  targets : List String
  into? : Option String
  group : List String
  order : List OrderItem
  skip? : Option UInt64
  limit? : Option Int64
  fetchPlan : List (String × Int64)
  timeout? : Option UInt64
  lock? : Option LockMode
  parallel : Bool
  strategy? : Option Strategy
  content : List (Fields Value)
  merge : List (Fields Value)
  upsert : Bool
  returning? : Option ReturnClause
  params : Fields Value
  options : StatementOptions
  schema? : Option Schema
  /-- The first thing that went wrong while the statement was built. -/
  error? : Option Error

namespace Frame

def empty (kind : StatementKind) : Frame where
  kind := kind
  projections := []
  fields := []
  targets := []
  into? := none
  group := []
  order := []
  skip? := none
  limit? := none
  fetchPlan := []
  timeout? := none
  lock? := none
  parallel := false
  strategy? := none
  content := []
  merge := []
  upsert := false
  returning? := none
  params := []
  options := .empty
  schema? := none
  error? := none

end Frame

mutual

inductive Term where
  | value (v : Value)
  | query (statement : Statement)

/-- What a statement reads from: a class, cluster, address or expression, or a sub-query. -/
inductive Source where
  | target (text : String)
  | query (statement : Statement)

inductive LetValue where
  | expression (text : String)
  | query (statement : Statement)

inductive Test where
  /-- `path op :param` -/
  | compare (path : String) (op : Operator) (v : Value)
  /-- `path IS NULL` or `path IS NOT NULL` -/
  | null (path : String) (op : Operator)
  /-- `path IN [...]`, `path NOT IN (...)` and so on -/
  | membership (path : String) (op : Operator) (operand : Term)
  /-- `path BETWEEN :low AND :high` -/
  | range (path : String) (low high : Value)
  /-- Conditions in parentheses, with the parameters that came with them. -/
  | group (params : Fields Value) (members : List WhereClause)
  /-- Text that is taken as it is. -/
  | raw (sql : String)

/-- A test and how it is joined to those before it. -/
structure WhereClause where
  logic : Logic
  test : Test

structure Change where
  kind : ChangeKind
  path : String
  term : Term

structure Statement where
  frame : Frame
  sources : List Source
  lets : List (String × LetValue)
  conditions : List WhereClause
  changes : List Change

end

namespace Statement

def kind (s : Statement) : StatementKind :=
  s.frame.kind

def error? (s : Statement) : Option Error :=
  s.frame.error?

def params (s : Statement) : Fields Value :=
  s.frame.params

def hasChanges (s : Statement) : Bool :=
  !s.changes.isEmpty

def empty (kind : StatementKind) : Statement :=
  ⟨.empty kind, [], [], [], []⟩

def select : Statement :=
  ⟨{ Frame.empty .select with projections := [.ofText "*"] }, [], [], [], []⟩

def insert : Statement :=
  empty .insert

def delete : Statement :=
  empty .delete

def updateAll (targets : List String) : Statement :=
  ⟨{ Frame.empty .update with targets := targets }, [], [], [], []⟩

def update (target : String) : Statement :=
  updateAll [target]

/-- A `TRAVERSE` of the given fields, or of everything if there are none. -/
def traverse (fields : List String) : Statement :=
  let fields := if fields.isEmpty then ["*"] else fields
  ⟨{ Frame.empty .traverse with fields := fields }, [], [], [], []⟩

/-- A new statement of a kind, on which the conditions of a group are collected. -/
def fresh : StatementKind → Statement
  | .select => select
  | .insert => insert
  | .update => updateAll []
  | .delete => delete
  | .traverse => traverse []

/-- Notes an error; the first one stays. -/
def recordError (s : Statement) (e : Error) : Statement :=
  match s.error? with
  | some _ => s
  | none => { s with frame := { s.frame with error? := some e } }

/-- Goes on only while nothing has gone wrong, and notes what goes wrong. -/
def attempt (s : Statement) (step : Statement → Except Error Statement) : Statement :=
  match s.error? with
  | some _ => s
  | none =>
    match step s with
    | .ok s' => s'
    | .error e => s.recordError e

theorem recordError_error? (s : Statement) (e : Error) :
    (s.recordError e).error? = some (s.error?.getD e) := by
  unfold recordError
  cases h : s.error? with
  | none => rfl
  | some old => simp [h]

end Statement

end DocMapper
