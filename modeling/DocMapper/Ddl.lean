import DocMapper.Text.Upper
/-!
Definitions of classes, properties and indexes, and the statements that create, change and drop
them. Keywords and type names are written in upper case.
-/

namespace DocMapper

inductive Attribute where
  | set (name value : String)
  | custom (key value : String)
  deriving DecidableEq

structure PropertyDef where
  name : String
  type : String
  linkedClass? : Option String
  /-- Only counts without a linked class. -/
  linkedType? : Option String
  attributes : List Attribute
  deriving DecidableEq

structure IndexDef where
  name : String
  type : String
  paths : List String
  metadata : List (String × String)
  deriving DecidableEq

structure ClassDef where
  name : String
  superClass? : Option String
  isAbstract : Bool
  /-- Only counts for a class that is not abstract. -/
  cluster? : Option String
  attributes : List Attribute
  properties : List PropertyDef
  indexes : List IndexDef
  deriving DecidableEq

namespace ClassDef

def empty : ClassDef :=
  ⟨"", none, false, none, [], [], []⟩

end ClassDef

namespace Ddl

def alterClassText (className : String) : Attribute → String
  | .set name value => s!"ALTER CLASS {className} {Text.upper name} {value}"
  | .custom key value => s!"ALTER CLASS {className} CUSTOM {key} = {value}"

def alterClass (className : String) (attributes : List Attribute) : List String :=
  attributes.map (alterClassText className)

/-- The values of `TYPE` and `LINKEDTYPE` are type names too. -/
def attributeValue (name value : String) : String :=
  if name = "TYPE" ∨ name = "LINKEDTYPE" then Text.upper value else value

def alterPropertyText (className property : String) : Attribute → String
  | .set name value =>
    let name := Text.upper name
    s!"ALTER PROPERTY {className}.{property} {name} {attributeValue name value}"
  | .custom key value => s!"ALTER PROPERTY {className}.{property} CUSTOM {key} = {value}"

def alterProperty (className property : String) (attributes : List Attribute) : List String :=
  attributes.map (alterPropertyText className property)

def linkText (property : PropertyDef) : String :=
  match property.linkedClass?, property.linkedType? with
  | some linked, _ => " " ++ linked
  | none, some linked => " " ++ Text.upper linked
  | none, none => ""

def createProperty (className : String) (property : PropertyDef) : List String :=
  s!"CREATE PROPERTY {className}.{property.name} {Text.upper property.type}{linkText property}" ::
    alterProperty className property.name property.attributes

/-- The name of an index and what it covers; under a class only if it covers properties. -/
def indexHead (index : IndexDef) (className? : Option String) : String :=
  let paths := ", ".intercalate index.paths
  if index.paths.isEmpty then index.name
  else
    match className? with
    | some className => s!"{className}.{index.name} ON {className} ({paths})"
    | none => s!"{index.name} ({paths})"

def metadataText (entries : List (String × String)) : String :=
  if entries.isEmpty then ""
  else
    let items := entries.map fun entry => s!"{entry.1} : {entry.2}"
    " METADATA \x7b" ++ ", ".intercalate items ++ "\x7d"

def createIndex (index : IndexDef) (className? : Option String) : List String :=
  let head := indexHead index className?
  [s!"CREATE INDEX {head} {Text.upper index.type}{metadataText index.metadata}"]

def createClassHead (c : ClassDef) : String :=
  let parent := match c.superClass? with
    | some parent => " EXTENDS " ++ parent
    | none => ""
  let storage :=
    if c.isAbstract then " ABSTRACT"
    else
      match c.cluster? with
      | some cluster => " CLUSTER " ++ cluster
      | none => ""
  "CREATE CLASS " ++ c.name ++ parent ++ storage

/-- Creates a class, then its attributes, its properties and its indexes. -/
def createClass (c : ClassDef) : List String :=
  createClassHead c ::
    (alterClass c.name c.attributes ++ c.properties.flatMap (createProperty c.name) ++
      c.indexes.flatMap (createIndex · (some c.name)))

def dropClass (className : String) : List String :=
  [s!"DROP CLASS {className}"]

def truncateClass (className : String) : List String :=
  [s!"TRUNCATE CLASS {className}"]

def renameClass (className newName : String) : List String :=
  alterClass className [.set "name" newName]

def renameProperty (className property newName : String) : List String :=
  alterProperty className property [.set "name" newName]

def dropProperty (className property : String) : List String :=
  [s!"DROP PROPERTY {className}.{property}"]

def qualified (name : String) : Option String → String
  | some className => s!"{className}.{name}"
  | none => name

def dropIndex (name : String) (className? : Option String) : List String :=
  [s!"DROP INDEX {qualified name className?}"]

def rebuildIndex (name? className? : Option String) : List String :=
  match name? with
  | some name => [s!"REBUILD INDEX {qualified name className?}"]
  | none => ["REBUILD INDEX *"]

end Ddl

end DocMapper
