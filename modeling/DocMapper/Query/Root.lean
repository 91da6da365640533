import DocMapper.Query.Options
/-!
A query starts one statement and no more. Sub-queries of conditions are built the same way.
-/

namespace DocMapper

structure Query where
  schema? : Option Schema
  statement? : Option Statement

namespace Query

def empty : Query :=
  ⟨none, none⟩

/-- A query whose statement casts its values by a schema. -/
def ofSchema (schema : Schema) : Query :=
  ⟨some schema, none⟩

/-- Starts a statement; the second start is an error. -/
def start (q : Query) (s : Statement) : Except Error Query :=
  match q.statement? with
  | some old => .error (.statementAlreadySet old.kind)
  | none =>
    .ok { q with
      statement? := some (match q.schema? with
        | some schema => s.setSchema schema
        | none => s) }

def build (q : Query) (change : Statement → Statement) : Query :=
  { q with statement? := q.statement?.map change }

end Query

namespace Statement

/-- The condition that a path lies among the results of a sub-query. -/
def subqueryCondition (path token : String) (build : Query → Except Error Query) :
    Except Error Condition := do
  let op ← Operator.ofToken token
  if op.shape = .membership then
    let query ← build .empty
    match query.statement? with
    | some sub => pure (.compare path op.code (.query sub))
    | none => throw (.invalidArgument "sub-query closure built no statement")
  else throw (.unsupportedSubquery op.sql)

def whereSubquery (s : Statement) (path token : String) (build : Query → Except Error Query) :
    Statement :=
  s.attempt fun s => (subqueryCondition path token build).map s.andWhere

end Statement

end DocMapper
