import DocMapper.Value.Path
/-!
Dotted paths: their ancestors, and reading and writing the values of a document along them.
-/

namespace DocMapper

/-- The paths that lead to a path, from its first segment to itself. -/
def lineageFrom (path : String) : List String → List String
  | [] => []
  | segment :: rest =>
    let next := if path.isEmpty then segment else path ++ "." ++ segment
    next :: lineageFrom next rest

def lineage (path : String) : List String :=
  lineageFrom "" (segments path)

def hasDot (path : String) : Bool :=
  path.toList.contains '.'

/-- Whether a path is below another, as text: the other one and a dot begin it. -/
def isBelow (path ancestor : String) : Bool :=
  (ancestor.toList ++ ['.']).isPrefixOf path.toList

namespace Value

/-- The index of a list item that a segment names. -/
def itemIndex? (items : List Value) (segment : String) : Option Nat :=
  (Number.readIndex? segment.toList).filter (· < items.length)

/-- Writes the entry of a map, or removes it if there is nothing to write. `below` writes into the
old value of the entry, or into an empty map. -/
def writeEntry (entries : Fields Value) (segment : String) (isLast removes : Bool)
    (below : Value → Value) : Fields Value :=
  match Fields.get? entries segment with
  | some old =>
    if removes && isLast then Fields.drop entries segment
    else Fields.put entries segment (below old)
  | none => if removes then entries else Fields.put entries segment (below (.map []))

/-- Writes a value below another, or removes what is there. Maps are made on the way, in the place
of anything that holds no values. A list item cannot be removed and becomes null. -/
def write (v? : Option Value) : List String → Value → Value
  | [], _ => v?.getD .null
  | segment :: rest, slot =>
    match slot with
    | .map entries => .map (writeEntry entries segment rest.isEmpty v?.isNone (write v? rest))
    | .list items =>
      match itemIndex? items segment with
      | some index => .list (items.modify index (write v? rest))
      | none =>
        if v?.isNone then .list items
        else .map (writeEntry [] segment rest.isEmpty false (write v? rest))
    | other =>
      if v?.isNone then other
      else .map (writeEntry [] segment rest.isEmpty false (write v? rest))

end Value

def valueAt? (values : Fields Value) (path : String) : Option Value :=
  match segments path with
  | [] => none
  | head :: rest => (Fields.get? values head).bind (·.atSegments? rest)

/-- Writes the value at a path of a document, or removes it. -/
def writeAt (values : Fields Value) (path : String) (v? : Option Value) : Fields Value :=
  match segments path with
  | [] => values
  | head :: rest => Value.writeEntry values head rest.isEmpty v?.isNone (Value.write v? rest)

end DocMapper
