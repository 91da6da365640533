import DocMapper.Json.Record
import DocMapper.Value
/-!
Values with their types written out: `t` names the type and `v` holds the contents.
-/

namespace DocMapper.Value

/-- The type names of the tagged form. -/
inductive Tag where
  | null | bool | int | float | string | dateTime | link | list | map
  deriving DecidableEq

def Tag.all : List Tag :=
  [.null, .bool, .int, .float, .string, .dateTime, .link, .list, .map]

def Tag.name : Tag → String
  | .null => "Null"
  | .bool => "Bool"
  | .int => "Int"
  | .float => "Float"
  | .string => "String"
  | .dateTime => "DateTime"
  | .link => "Link"
  | .list => "List"
  | .map => "Map"

def Tag.ofName? (name : String) : Option Tag :=
  Tag.all.find? fun tag => tag.name = name

def tag : Value → Tag
  | .null => .null
  | .bool _ => .bool
  | .int _ => .int
  | .float _ => .float
  | .string _ => .string
  | .dateTime _ => .dateTime
  | .link _ => .link
  | .list _ => .list
  | .map _ => .map

def tagged (tag : Tag) (contents : Json) : Json :=
  .obj [("t", .str tag.name), ("v", contents)]

mutual

def toTagged : Value → Json
  | .null => .obj [("t", .str Tag.null.name)]
  | .bool b => tagged .bool (.bool b)
  | .int n => tagged .int (.int n.toInt)
  | .float d => tagged .float (if d.isFinite then .float d else .null)
  | .string s => tagged .string (.str s)
  | .dateTime t => tagged .dateTime (.str t.text)
  | .link id => tagged .link (.str id.text)
  | .list items => tagged .list (.arr (itemsToTagged items))
  | .map entries => tagged .map (.obj (entriesToTagged entries))

def itemsToTagged : List Value → List Json
  | [] => []
  | item :: rest => toTagged item :: itemsToTagged rest

def entriesToTagged : List (String × Value) → List (String × Json)
  | [] => []
  | (key, item) :: rest => (key, toTagged item) :: entriesToTagged rest

end

/-- The contents of a type that holds no other values. A date may also be given in seconds. -/
def scalar? : Tag → Json → Option Value
  | .null, .null => some .null
  | .bool, .bool b => some (.bool b)
  | .int, .int n => (Number.int64? n).map .int
  | .float, .int n => some (.float (Double.ofInt n))
  | .float, .float d => some (.float d)
  | .string, .str s => some (.string s)
  | .dateTime, .str s => (DateTime.ofText? s).map .dateTime
  | .dateTime, .int n => (DateTime.ofUnix? n).map .dateTime
  | .link, .str s => (RecordId.ofText? s).map .link
  | _, _ => none

/-- The tag in an object. In contents read ahead an empty object may stand for null. -/
def Tag.ofCase? (ahead : Bool) : Json → Option Tag
  | .str name => ofName? name
  | .obj [(name, .null)] => ofName? name
  | .obj [(name, .obj [])] => if ahead then ofName? name else none
  | _ => none

/-- The tag in an array. In contents read ahead the place of the type among all types will do. -/
def Tag.ofPlace? (ahead : Bool) : Json → Option Tag
  | .str name => ofName? name
  | .int n => if ahead && 0 ≤ n then all[n.toNat]? else none
  | _ => none

/-- The tag of an object, which names it once. -/
def tagOf? (ahead : Bool) (entries : List (String × Json)) : Option Tag := do
  let json ← Json.single? entries "t"
  let _ ← Json.single? entries "v"
  json.bind (Tag.ofCase? ahead)

/-- Whether the contents of an object stand before its tag. -/
def contentsFirst (entries : List (String × Json)) : Bool :=
  (entries.find? fun entry => entry.1 = "t" || entry.1 = "v").any (·.1 = "v")

mutual

/-- Reads the tagged form, an object or an array of tag and contents. Contents that stand before
their tag, and all inside them, are `ahead`: they are read before it is known what they are. -/
def ofTagged? (ahead : Bool) : Json → Option Value
  | .obj entries =>
    (tagOf? ahead entries).bind (contentsIn? (ahead || contentsFirst entries) · entries)
  | .arr [tag, contents] => (Tag.ofPlace? ahead tag).bind (contents? ahead · contents)
  | _ => none

/-- Finds the contents among the entries of an object; only null has none. -/
def contentsIn? (ahead : Bool) (tag : Tag) : List (String × Json) → Option Value
  | [] => if tag = .null then some .null else none
  | (key, json) :: rest =>
    if key = "v" then contents? ahead tag json else contentsIn? ahead tag rest

def contents? (ahead : Bool) (tag : Tag) : Json → Option Value
  | .arr items => if tag = .list then (itemsOfTagged? ahead items).map .list else none
  | .obj entries =>
    if tag = .map then (entriesOfTagged? ahead entries).map fun es => .map (Fields.ofList es)
    else none
  | json => scalar? tag json

def itemsOfTagged? (ahead : Bool) : List Json → Option (List Value)
  | [] => some []
  | item :: rest => do
    let v ← ofTagged? ahead item
    let vs ← itemsOfTagged? ahead rest
    pure (v :: vs)

def entriesOfTagged? (ahead : Bool) : List (String × Json) → Option (List (String × Value))
  | [] => some []
  | (key, item) :: rest => do
    let v ← ofTagged? ahead item
    let vs ← entriesOfTagged? ahead rest
    pure ((key, v) :: vs)

end

end DocMapper.Value
