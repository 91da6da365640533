import DocMapper.Json.Codec
/-!
Taking records apart. A record is an object whose fields are found by name, or an array that lists
them in order. A name the record does not know is passed over; one it knows must not come twice.
-/

namespace DocMapper.Json

/-- The entry of a name, if it comes once; none if it comes twice. -/
def single? (entries : List (String × Json)) (name : String) : Option (Option Json) :=
  match entries.filter fun entry => entry.1 = name with
  | [] => some none
  | [entry] => some (some entry.2)
  | _ => none

/-- The fields of a record, in the order of their names. -/
def fields? (names : List String) : Json → Option (List (Option Json))
  | .obj entries => names.mapM (single? entries)
  | .arr items =>
    if items.length ≤ names.length then
      some (items.map some ++ List.replicate (names.length - items.length) none)
    else none
  | _ => none

def required? {α : Type} [Readable α] (field : Option Json) : Option α :=
  field.bind read?

def defaulted? {α : Type} [Readable α] (value : α) : Option Json → Option α
  | none => some value
  | some json => read? json

/-- The name of a case without contents: the name itself, or an object with nothing else in it. -/
def caseName? : Json → Option String
  | .str name => some name
  | .obj [(name, .null)] => some name
  | _ => none

end DocMapper.Json
