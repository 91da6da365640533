import DocMapper.Json
/-!
Data text whose form is right, before its strings and numbers are. A reader finishes the parts it
looks at, and only there do lone surrogates, numbers out of range and deep nesting count.
-/

namespace DocMapper.Json

/-- A tree as it is written. A leaf without data, and a key without text, are of the right form but
stand for nothing. -/
inductive Draft where
  | leaf (json? : Option Json)
  | arr (items : List Draft)
  | obj (entries : List (Option String × Draft))

namespace Draft

mutual

/-- The finished tree; `depth` containers may be opened inside one another. -/
def finish? (depth : Nat) : Draft → Option Json
  | .leaf json? => json?
  | .arr items => if depth = 0 then none else (finishItems? (depth - 1) items).map .arr
  | .obj entries => if depth = 0 then none else (finishEntries? (depth - 1) entries).map .obj

def finishItems? (depth : Nat) : List Draft → Option (List Json)
  | [] => some []
  | item :: rest => do
    let json ← item.finish? depth
    let items ← finishItems? depth rest
    pure (json :: items)

def finishEntries? (depth : Nat) : List (Option String × Draft) → Option (List (String × Json))
  | [] => some []
  | (key?, item) :: rest => do
    let key ← key?
    let json ← item.finish? depth
    let entries ← finishEntries? depth rest
    pure ((key, json) :: entries)

end

/-- What a reader looks at in a draft; the number bounds the depth. -/
abbrev Look := Nat → Draft → Option Json

/-- The entries of the given names. The others are passed over, but their keys are read. -/
def fieldEntries? (fields : List (String × Look)) (depth : Nat) :
    List (Option String × Draft) → Option (List (String × Json))
  | [] => some []
  | (key?, item) :: rest => do
    let key ← key?
    match fields.lookup key with
    | none => fieldEntries? fields depth rest
    | some look =>
      let json ← look depth item
      let entries ← fieldEntries? fields depth rest
      pure ((key, json) :: entries)

/-- Looks at a record of the given fields: an object with these names, or an array in this order. -/
def record? (fields : List (String × Look)) : Look
  | 0, _ => none
  | _, .leaf _ => none
  | depth + 1, .obj entries => (fieldEntries? fields depth entries).map .obj
  | depth + 1, .arr items =>
    if fields.length < items.length then none
    else ((fields.zip items).mapM fun (pair : (String × Look) × Draft) =>
      pair.1.2 depth pair.2).map .arr

end Draft

end DocMapper.Json
