import DocMapper.Text.Ascii
/-!
What can be set for the compiler: how parameters are named, what stands between clauses, and which
shortcomings of the database are worked around.
-/

namespace DocMapper

/-- Work-arounds for the database. -/
structure Dialect where
  /-- Writes map entries as `SET path.key = value` instead of `PUT`. -/
  putAsNestedSet : Bool
  /-- Writes a list whole when embedded documents are pulled from it. -/
  structuredPullAsSet : Bool
  deriving DecidableEq

namespace Dialect

def default : Dialect :=
  ⟨true, true⟩

def strict : Dialect :=
  ⟨false, false⟩

end Dialect

structure Config where
  /-- What the names of generated parameters start with. -/
  stem : String
  /-- What stands between two clauses. -/
  separator : String
  dialect : Dialect
  deriving DecidableEq

namespace Config

def default : Config :=
  ⟨"qp", " ", .default⟩

def strict : Config :=
  { default with dialect := .strict }

/-- A letter, then letters, digits and underscores, all ASCII. -/
def isName : List Char → Bool
  | [] => false
  | c :: rest => Text.isAsciiLetter c && rest.all Text.isNameChar

/-- Whether generated parameters can be told from the text after them. -/
def isValid (config : Config) : Bool :=
  isName config.stem.toList

end Config

inductive ConfigError where
  | unreadable (path : String)
  | malformed (path : Option String)
  | invalidStem (stem : String)
  deriving DecidableEq

namespace ConfigError

/-- A short name of the cause, for programs. -/
def code : ConfigError → String
  | .unreadable _ => "Read"
  | .malformed _ => "Parse"
  | .invalidStem _ => "InvalidPrefix"

/-- The message, without the cause that the reader of the file would add to the first two. -/
def message : ConfigError → String
  | .unreadable path => s!"failed to read config file {path}"
  | .malformed none => "failed to parse config"
  | .malformed (some path) => s!"failed to parse config {path}"
  | .invalidStem stem =>
    s!"param_prefix '{stem}' must start with a letter and contain only [A-Za-z0-9_]"

end ConfigError

def Config.check (config : Config) : Except ConfigError Unit :=
  if config.isValid then .ok () else .error (.invalidStem config.stem)

end DocMapper
