import DocMapper.Path
/-!
The part of a record that a document was loaded with.
-/

namespace DocMapper

structure Selection where
  fields : List String
  /-- Whether the fields are those loaded, or those left out. -/
  inclusive : Bool
  deriving DecidableEq

namespace Selection

def only (fields : List String) : Selection :=
  ⟨fields, true⟩

def allBut (fields : List String) : Selection :=
  ⟨fields, false⟩

/-- Whether a path is a field of the selection, or lies above or below one. -/
def touches (selection : Selection) (path : String) : Bool :=
  selection.fields.any fun field =>
    field = path || isBelow field path || isBelow (path ++ ".") field

/-- Whether a path was loaded, at least in part. -/
def contains (selection : Selection) (path : String) : Bool :=
  if selection.touches path then selection.inclusive else !selection.inclusive

end Selection

end DocMapper
