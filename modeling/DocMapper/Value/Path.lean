import DocMapper.Value
/-!
Looking into values along dotted paths. A segment names an entry of a map or the index of a list
item; other values have nothing below them.
-/

namespace DocMapper

def segments (path : String) : List String :=
  Text.split '.' path

theorem segments_ne_nil (path : String) : segments path ≠ [] := by
  simp [segments, Text.split, Text.splitChars_ne_nil]

namespace Value

def child? (v : Value) (segment : String) : Option Value :=
  match v with
  | .map entries => Fields.get? entries segment
  | .list items => (Number.readIndex? segment.toList).bind (items[·]?)
  | _ => none

def atSegments? (v : Value) : List String → Option Value
  | [] => some v
  | segment :: rest => (v.child? segment).bind (atSegments? · rest)

def atPath? (v : Value) (path : String) : Option Value :=
  v.atSegments? (segments path)

end Value

end DocMapper
