import DocMapper.Config.Json
import DocMapper.Toml.Document
/-!
Configurations in TOML files.
-/

namespace DocMapper

/-- Reads a dialect from a file. Of an array only the items count that stand for fields. -/
def Dialect.ofToml? : Json → Option Dialect
  | .arr items => ofJson? (.arr (items.take 2))
  | json => ofJson? json

namespace Config

/-- Reads and checks a configuration; `path?` is where the text came from. -/
def ofToml (path? : Option String) (text : String) : Except ConfigError Config := do
  match (Toml.parse? text).bind (ofJsonBy? Dialect.ofToml?) with
  | some config =>
    config.check
    pure config
  | none => throw (.malformed path?)

def load (path : String) (text? : Option String) : Except ConfigError Config :=
  match text? with
  | some text => ofToml (some path) text
  | none => .error (.unreadable path)

end Config

end DocMapper
