import DocMapper.Compile.Fragment
/-!
From statements to text and parameters. A sub-statement shares the parameters of the whole, casts
by its own schema, and is left out where it has no text.
-/

namespace DocMapper

/-- A finished statement: its text, its parameters, and what its execution is told. -/
structure Sql where
  text : String
  params : Fields Value
  options : StatementOptions

namespace Sql

def ofText (text : String) : Sql :=
  ⟨text, [], .empty⟩

def isEmpty (sql : Sql) : Bool :=
  sql.text.isEmpty

end Sql

def Clause.changeKind? : Clause → Option ChangeKind
  | .set => some .set
  | .increment => some .increment
  | .add => some .add
  | .remove => some .remove
  | .put => some .put
  | _ => none

mutual

def statementText (config : Config) : Statement → Compile String
  | ⟨frame, sources, lets, conditions, changes⟩ =>
    match frame.error? with
    | some e => Compile.fail e
    | none => do
      Compile.mergeParams frame.params
      let clauses ← frame.activeClauses.mapM fun clause =>
        match clause with
        | .select => Fragment.selectClause frame.projections
        | .from => do
          let texts ← sourceTexts config sources
          pure (Fragment.targetClause "FROM" frame.kind.allowsAddressList texts)
        | .let => do
          let texts ← letTexts config lets
          pure (Fragment.commaList texts)
        | .where => do
          let parts ← clauseTexts config frame.schema? conditions
          let body := Fragment.joinedTests parts
          pure (if body.isEmpty then "" else frame.kind.whereKeyword ++ " " ++ body)
        | .content => Fragment.documentClause frame.schema? "CONTENT" frame.content
        | .merge => Fragment.documentClause frame.schema? "MERGE" frame.merge
        | other =>
          match other.changeKind? with
          | some kind => do
            let items ← changeTexts config frame.schema? kind changes
            pure (Fragment.listClause
              (Fragment.changeKeyword config.dialect.putAsNestedSet kind) items)
          | none => pure (frame.plainClause other)
      pure (Fragment.joined config.separator clauses)

/-- The sources that have text. -/
def sourceTexts (config : Config) : List Source → Compile (List String)
  | [] => pure []
  | .target target :: rest => do
    let text ← Compile.fill target
    let texts ← sourceTexts config rest
    pure (text :: texts)
  | .query statement :: rest => do
    let text ← statementText config statement
    let texts ← sourceTexts config rest
    pure (if text.isEmpty then texts else Fragment.parenthesized text :: texts)

/-- The bindings that have text. -/
def letTexts (config : Config) : List (String × LetValue) → Compile (List String)
  | [] => pure []
  | (name, .expression text) :: rest => do
    let texts ← letTexts config rest
    pure (("LET $" ++ name ++ " = " ++ text) :: texts)
  | (name, .query statement) :: rest => do
    let text ← statementText config statement
    let texts ← letTexts config rest
    pure (if text.isEmpty then texts
      else ("LET $" ++ name ++ " = " ++ Fragment.parenthesized text) :: texts)

/-- The tests that have text, with their connectives. -/
def clauseTexts (config : Config) (schema? : Option Schema) :
    List WhereClause → Compile (List (Logic × String))
  | [] => pure []
  | ⟨logic, test⟩ :: rest => do
    let text ← testText config schema? test
    let parts ← clauseTexts config schema? rest
    pure (if text.isEmpty then parts else (logic, text) :: parts)

def testText (config : Config) (schema? : Option Schema) : Test → Compile String
  | .compare path op v => Fragment.compareText schema? path op v
  | .null path op => pure (Fragment.comparison path op.sql "NULL")
  | .membership path op operand => membershipText config schema? path op operand
  | .range path low high => Fragment.rangeText schema? path low high
  | .group params members => do
    Compile.mergeParams params
    let parts ← clauseTexts config schema? members
    pure (Fragment.parenthesized (Fragment.joinedTests parts))
  | .raw sql => pure sql

/-- A membership test in a sub-query without text has no text itself. -/
def membershipText (config : Config) (schema? : Option Schema) (path : String) (op : Operator) :
    Term → Compile String
  | .value v => Fragment.membershipText schema? path op v
  | .query statement => do
    let text ← statementText config statement
    pure (if text.isEmpty then ""
      else Fragment.comparison path op.sql (Fragment.parenthesized text))

/-- The changes of one kind. A sub-query cannot be put into a map. -/
def changeTexts (config : Config) (schema? : Option Schema) (kind : ChangeKind) :
    List Change → Compile (List String)
  | [] => pure []
  | ⟨other, path, term⟩ :: rest => do
    if other = kind then
      let items ← termTexts config schema? kind path term
      let texts ← changeTexts config schema? kind rest
      pure (items ++ texts)
    else changeTexts config schema? kind rest

def termTexts (config : Config) (schema? : Option Schema) (kind : ChangeKind) (path : String) :
    Term → Compile (List String)
  | .value v => Fragment.valueItems schema? config.dialect.putAsNestedSet kind path v
  | .query statement => do
    if kind = .put then pure []
    else
      let text ← statementText config statement
      pure (if text.isEmpty then [] else [Fragment.assignment path (Fragment.parenthesized text)])

end

namespace Statement

/-- Compiles a statement; `params` are there before any other parameter. -/
def compileWith (config : Config) (params : Fields Value) (s : Statement) : Except Error Sql := do
  let (text, registry) ← (statementText config s).run ((Registry.ofStem config.stem).merge params)
  pure ⟨text, registry.params, s.frame.options⟩

def compile (config : Config) (s : Statement) : Except Error Sql :=
  s.compileWith config []

end Statement

end DocMapper
