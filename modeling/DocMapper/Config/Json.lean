import DocMapper.Config
import DocMapper.Json.Record
/-!
Configurations as plain data. Every field may be missing.
-/

namespace DocMapper

namespace Dialect

def toJson (dialect : Dialect) : Json :=
  .obj [("put_as_nested_set", .bool dialect.putAsNestedSet),
    ("structured_pull_as_set", .bool dialect.structuredPullAsSet)]

def ofJson? (json : Json) : Option Dialect := do
  match ← Json.fields? ["put_as_nested_set", "structured_pull_as_set"] json with
  | [put, pull] =>
    let put ← Json.defaulted? default.putAsNestedSet put
    let pull ← Json.defaulted? default.structuredPullAsSet pull
    pure ⟨put, pull⟩
  | _ => none

end Dialect

namespace Config

def toJson (config : Config) : Json :=
  .obj [("param_prefix", .str config.stem), ("separator", .str config.separator),
    ("dialect", config.dialect.toJson)]

/-- Reads a configuration, and its dialect in a way of its own. -/
def ofJsonBy? (dialect? : Json → Option Dialect) (json : Json) : Option Config := do
  match ← Json.fields? ["param_prefix", "separator", "dialect"] json with
  | [stem, separator, dialect] =>
    let stem ← Json.defaulted? default.stem stem
    let separator ← Json.defaulted? default.separator separator
    let dialect ← match dialect with
      | some json => dialect? json
      | none => some default.dialect
    pure ⟨stem, separator, dialect⟩
  | _ => none

def ofJson? (json : Json) : Option Config :=
  ofJsonBy? Dialect.ofJson? json

end Config

end DocMapper
