import DocMapper.Query.Condition
/-!
Conditions made ready for a statement: tests with their connectives, and the parameters that came
with them.
-/

namespace DocMapper

structure Filter where
  clauses : List WhereClause
  params : Fields Value

namespace Filter

def empty : Filter :=
  ⟨[], []⟩

def push (filter : Filter) (logic : Logic) (test : Test) : Filter :=
  { filter with clauses := filter.clauses ++ [⟨logic, test⟩] }

/-- Takes over another filter as a group. An empty one leaves no trace. -/
def pushGroup (filter : Filter) (logic : Logic) (sub : Filter) : Filter :=
  if sub.clauses.isEmpty then filter
  else ⟨filter.clauses ++ [⟨logic, .group sub.params sub.clauses⟩],
    Fields.merge filter.params sub.params⟩

/-- The test that compares a path with a value. Null turns every operator into a null test, and a
list of one value counts as that value. -/
def testOfValue (path : String) (op : Operator) (v : Value) : Except Error Test :=
  if v.isNull then .ok (.null path op.forNull)
  else
    match op.shape with
    | .nullTest => .ok (.null path op)
    | .membership => .ok (.membership path op (.value v))
    | .range =>
      match v with
      | .list [low, high] => .ok (.range path low high)
      | other => .error (.invalidArgument
          s!"BETWEEN on `{path}` expects exactly two bounds, got {other.literal}")
    | .basic =>
      match v with
      | .list [single] => .ok (.compare path op single)
      | other => .ok (.compare path op other)

/-- The test of a comparison. A sub-query is only a list of candidates. -/
def testOf (path : String) (op : Operator) : Term → Except Error Test
  | .query statement =>
    if op.shape = .membership then .ok (.membership path op (.query statement))
    else .error (.unsupportedSubquery op.sql)
  | .value v => testOfValue path op v

mutual

/-- Adds a condition, joined by `logic` to those before it. -/
def add (logic : Logic) (filter : Filter) : Condition → Except Error Filter
  | .compare path token operand => do
    let op ← Operator.ofToken token
    let test ← testOf path op operand
    pure (filter.push logic test)
  | .all items => addAll logic filter items
  | .group inner members => do
    let sub ← addMembers inner .empty members
    pure (filter.pushGroup logic sub)
  | .raw sql params =>
    .ok ({ filter with params := Fields.merge filter.params params }.push logic (.raw sql))
  | .invalid e => .error e

/-- Adds conditions that share one connective. -/
def addAll (logic : Logic) (filter : Filter) : List Condition → Except Error Filter
  | [] => .ok filter
  | item :: rest => do
    let filter ← add logic filter item
    addAll logic filter rest

/-- Adds the members of a group. Several conditions given as one member are a group of their own,
joined by `AND`. -/
def addMembers (logic : Logic) (filter : Filter) : List Condition → Except Error Filter
  | [] => .ok filter
  | member :: rest => do
    let filter ←
      match member with
      | .all items =>
        if 1 < items.length then do
          let sub ← addMembers .and .empty items
          pure (filter.pushGroup logic sub)
        else addAll logic filter items
      | other => add logic filter other
    addMembers logic filter rest

end

end Filter

end DocMapper
