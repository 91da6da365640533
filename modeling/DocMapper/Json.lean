import DocMapper.Fields
import DocMapper.Number.Double
/-!
Data trees as they cross the border to other programs.
-/

namespace DocMapper

/-- Integers run from `-2 ^ 63` to `2 ^ 64 - 1`; every other number is a double. -/
inductive Json where
  | null
  | bool (b : Bool)
  | int (n : Int)
  | float (d : Double)
  | str (s : String)
  | arr (items : List Json)
  | obj (entries : List (String × Json))
  deriving Inhabited

abbrev Row := Fields Json

namespace Json

def str? : Json → Option String
  | .str s => some s
  | _ => none

def bool? : Json → Option Bool
  | .bool b => some b
  | _ => none

def arr? : Json → Option (List Json)
  | .arr items => some items
  | _ => none

def obj? : Json → Option (Fields Json)
  | .obj entries => some entries
  | _ => none

def isNull : Json → Bool
  | .null => true
  | _ => false

mutual

/-- The tree with the entries of each object in key order; of two with one name the later stays. -/
def sorted : Json → Json
  | .arr items => .arr (sortedItems items)
  | .obj entries => .obj (Fields.ofList (sortedEntries entries))
  | other => other

def sortedItems : List Json → List Json
  | [] => []
  | item :: rest => sorted item :: sortedItems rest

def sortedEntries : List (String × Json) → List (String × Json)
  | [] => []
  | (key, item) :: rest => (key, sorted item) :: sortedEntries rest

end

end Json

end DocMapper
