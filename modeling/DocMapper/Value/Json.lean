import DocMapper.Json
import DocMapper.Value
/-!
Values as plain data trees and back. Dates and links become strings, and come back as strings:
only a schema tells them apart.
-/

namespace DocMapper.Value

mutual

def toJson : Value → Json
  | .null => .null
  | .bool b => .bool b
  | .int n => .int n.toInt
  | .float d => if d.isFinite then .float d else .null
  | .string s => .str s
  | .dateTime t => .str t.text
  | .link id => .str id.text
  | .list items => .arr (itemsToJson items)
  | .map entries => .obj (entriesToJson entries)

def itemsToJson : List Value → List Json
  | [] => []
  | item :: rest => toJson item :: itemsToJson rest

def entriesToJson : List (String × Value) → List (String × Json)
  | [] => []
  | (key, item) :: rest => (key, toJson item) :: entriesToJson rest

end

mutual

/-- An integer outside the signed range becomes a double. -/
def ofJson : Json → Value
  | .null => .null
  | .bool b => .bool b
  | .int n =>
    match Number.int64? n with
    | some n => .int n
    | none => .float (Double.ofInt n)
  | .float d => .float d
  | .str s => .string s
  | .arr items => .list (itemsOfJson items)
  | .obj entries => .map (entriesOfJson entries)

def itemsOfJson : List Json → List Value
  | [] => []
  | item :: rest => ofJson item :: itemsOfJson rest

def entriesOfJson : List (String × Json) → List (String × Value)
  | [] => []
  | (key, item) :: rest => (key, ofJson item) :: entriesOfJson rest

end

end DocMapper.Value
