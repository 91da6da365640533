import DocMapper.Config
import DocMapper.Message
import DocMapper.Query.Kind
import DocMapper.Value.Literal
/-!
What can go wrong, by cause, with the code and the message of each cause.
-/

namespace DocMapper

/-- A value that a schema type refuses. -/
structure CastError where
  kind : String
  value : String
  path : String
  deriving DecidableEq

namespace CastError

def ofValue (kind : String) (value : Value) (path : String) : CastError :=
  ⟨kind, value.plainText, path⟩

def message (e : CastError) : String :=
  s!"Cast to {e.kind} failed for value `{e.value}` at path `{e.path}`"

end CastError

/-- A validator that fails on one path. -/
structure PathFailure where
  path : String
  kind : String
  message : String
  value : Value

namespace PathFailure

def ofTemplate (path kind template : String) (value : Value) : PathFailure :=
  ⟨path, kind, Message.fill template path value.plainText, value⟩

def withBound (e : PathFailure) (mark bound : String) : PathFailure :=
  { e with message := Text.replace e.message mark bound }

end PathFailure

/-- The failures of a document, by path. -/
structure ValidationError where
  failures : Fields PathFailure

namespace ValidationError

def empty : ValidationError :=
  ⟨[]⟩

/-- The first failure of a path stays. -/
def insert (e : ValidationError) (failure : PathFailure) : ValidationError :=
  if Fields.has e.failures failure.path then e
  else ⟨Fields.put e.failures failure.path failure⟩

def isEmpty (e : ValidationError) : Bool :=
  e.failures.isEmpty

def get? (e : ValidationError) (path : String) : Option PathFailure :=
  Fields.get? e.failures path

def message (e : ValidationError) : String :=
  match e.failures with
  | [] => "Validation failed"
  | failures => "Validation failed: " ++ ", ".intercalate (failures.map (·.2.message))

end ValidationError

inductive Error where
  | invalidOperator (token : String)
  | unsupportedSubquery (operator : String)
  | statementAlreadySet (existing : StatementKind)
  | unsupportedClause (kind : StatementKind) (clause : String)
  | cast (e : CastError)
  | validation (e : ValidationError)
  | invalidArgument (message : String)
  | invalidRecordId (text : String)
  | transport (cause : String)
  | serialization
  | config (e : ConfigError)

namespace Error

/-- A short name of the cause, for programs. -/
def code : Error → String
  | .invalidOperator _ => "InvalidOperator"
  | .unsupportedSubquery _ => "UnsupportedSubquery"
  | .statementAlreadySet _ => "StatementAlreadySet"
  | .unsupportedClause _ _ => "UnsupportedStatementOperation"
  | .cast _ => "CastError"
  | .validation _ => "ValidationError"
  | .invalidArgument _ => "InvalidArgument"
  | .invalidRecordId _ => "InvalidRecordId"
  | .transport _ => "Transport"
  | .serialization => "Serialization"
  | .config _ => "Config"

def message : Error → String
  | .invalidOperator token => s!"invalid operator '{token}' in where clause"
  | .unsupportedSubquery operator =>
    s!"sub-query as value is available for IN or NOT IN operators only (got {operator})"
  | .statementAlreadySet existing => s!"query has a {existing.keyword} statement already"
  | .unsupportedClause kind clause => s!"{clause} is not supported by {kind.keyword} statements"
  | .cast e => e.message
  | .validation e => e.message
  | .invalidArgument message => s!"invalid argument: {message}"
  | .invalidRecordId text => s!"invalid record id '{text}'"
  | .transport cause => s!"transport failure: {cause}"
  | .serialization => "serialization error"
  | .config e => e.message

end Error

end DocMapper
