import DocMapper.Ddl
import DocMapper.Json.Record
/-!
Definitions of classes as plain data.
-/

namespace DocMapper

namespace Attribute

def toJson : Attribute → Json
  | .set name value => .obj [("kind", .str "set"), ("name", .str name), ("value", .str value)]
  | .custom key value => .obj [("kind", .str "custom"), ("key", .str key), ("value", .str value)]

def make? (kind name value : String) : Option Attribute :=
  match kind with
  | "set" => some (.set name value)
  | "custom" => some (.custom name value)
  | _ => none

/-- What the first of the two texts of an attribute is called. -/
def nameField? : String → Option String
  | "set" => some "name"
  | "custom" => some "key"
  | _ => none

/-- Reads an object with its kind among its fields, or an array of the kind and both texts. -/
def ofJson? : Json → Option Attribute
  | .arr [.str kind, .str name, .str value] => make? kind name value
  | .obj entries => do
    let kind ← Json.single? entries "kind"
    let kind ← Json.required? kind
    let field ← nameField? kind
    let name ← Json.single? entries field
    let name ← Json.required? name
    let value ← Json.single? entries "value"
    let value ← Json.required? value
    make? kind name value
  | _ => none

end Attribute

instance : Json.Writable Attribute := ⟨Attribute.toJson⟩

instance : Json.Readable Attribute := ⟨Attribute.ofJson?⟩

namespace PropertyDef

def toJson (p : PropertyDef) : Json :=
  .obj [("name", .str p.name), ("type", .str p.type), ("linked_class", Json.write p.linkedClass?),
    ("linked_type", Json.write p.linkedType?), ("attributes", Json.write p.attributes)]

def ofJson? (json : Json) : Option PropertyDef := do
  match ← Json.fields? ["name", "type", "linked_class", "linked_type", "attributes"] json with
  | [name, type, linkedClass, linkedType, attributes] =>
    let name ← Json.required? name
    let type ← Json.required? type
    let linkedClass? ← Json.defaulted? none linkedClass
    let linkedType? ← Json.defaulted? none linkedType
    let attributes ← Json.defaulted? [] attributes
    pure ⟨name, type, linkedClass?, linkedType?, attributes⟩
  | _ => none

end PropertyDef

instance : Json.Writable PropertyDef := ⟨PropertyDef.toJson⟩

instance : Json.Readable PropertyDef := ⟨PropertyDef.ofJson?⟩

namespace IndexDef

def toJson (i : IndexDef) : Json :=
  .obj [("name", .str i.name), ("type", .str i.type), ("paths", Json.write i.paths),
    ("metadata", Json.write i.metadata)]

def ofJson? (json : Json) : Option IndexDef := do
  match ← Json.fields? ["name", "type", "paths", "metadata"] json with
  | [name, type, paths, metadata] =>
    let name ← Json.required? name
    let type ← Json.required? type
    let paths ← Json.defaulted? [] paths
    let metadata ← Json.defaulted? [] metadata
    pure ⟨name, type, paths, metadata⟩
  | _ => none

end IndexDef

instance : Json.Writable IndexDef := ⟨IndexDef.toJson⟩

instance : Json.Readable IndexDef := ⟨IndexDef.ofJson?⟩

namespace ClassDef

def toJson (c : ClassDef) : Json :=
  .obj [("name", .str c.name), ("super_class", Json.write c.superClass?),
    ("is_abstract", .bool c.isAbstract), ("cluster", Json.write c.cluster?),
    ("attributes", Json.write c.attributes), ("properties", Json.write c.properties),
    ("indexes", Json.write c.indexes)]

/-- Every field of a class may be missing. -/
def ofJson? (json : Json) : Option ClassDef := do
  match ← Json.fields? ["name", "super_class", "is_abstract", "cluster", "attributes", "properties",
      "indexes"] json with
  | [name, superClass, isAbstract, cluster, attributes, properties, indexes] =>
    let name ← Json.defaulted? "" name
    let superClass? ← Json.defaulted? none superClass
    let isAbstract ← Json.defaulted? false isAbstract
    let cluster? ← Json.defaulted? none cluster
    let attributes ← Json.defaulted? [] attributes
    let properties ← Json.defaulted? [] properties
    let indexes ← Json.defaulted? [] indexes
    pure ⟨name, superClass?, isAbstract, cluster?, attributes, properties, indexes⟩
  | _ => none

end ClassDef

end DocMapper
