import DocMapper.Json.Parse
import DocMapper.Value.Tagged
/-!
Tagged values in data text. Entries that name neither tag nor contents are passed over unread,
except in contents that stand before their tag: those are read whole.
-/

namespace DocMapper.Value

open Json (Draft)

mutual

/-- What is looked at in a tagged value; `depth` containers may be opened inside one another. -/
def look? (depth : Nat) : Draft → Option Json
  | .leaf _ => none
  | .arr [tag, contents] =>
    if depth = 0 then none
    else do
      let tag ← tag.finish? (depth - 1)
      let contents ← lookAtContents? (depth - 1) contents
      pure (.arr [tag, contents])
  | .arr _ => none
  | .obj entries =>
    if depth = 0 then none else (lookAtEntries? (depth - 1) false entries).map .obj

/-- Keeps the tag and the contents. `tagSeen` says whether the tag came already. -/
def lookAtEntries? (depth : Nat) (tagSeen : Bool) :
    List (Option String × Draft) → Option (List (String × Json))
  | [] => some []
  | (key?, item) :: rest => do
    let key ← key?
    if key = "t" then
      let json ← item.finish? depth
      let entries ← lookAtEntries? depth true rest
      pure ((key, json) :: entries)
    else if key = "v" then
      let json ← if tagSeen then lookAtContents? depth item else item.finish? depth
      let entries ← lookAtEntries? depth tagSeen rest
      pure ((key, json) :: entries)
    else lookAtEntries? depth tagSeen rest

/-- What is looked at in contents: all of them if they are no container, and the values in it
otherwise. -/
def lookAtContents? (depth : Nat) : Draft → Option Json
  | .leaf json? => json?
  | .arr items => if depth = 0 then none else (lookAtItems? (depth - 1) items).map .arr
  | .obj entries => if depth = 0 then none else (lookAtValues? (depth - 1) entries).map .obj

def lookAtItems? (depth : Nat) : List Draft → Option (List Json)
  | [] => some []
  | item :: rest => do
    let json ← look? depth item
    let items ← lookAtItems? depth rest
    pure (json :: items)

def lookAtValues? (depth : Nat) : List (Option String × Draft) → Option (List (String × Json))
  | [] => some []
  | (key?, item) :: rest => do
    let key ← key?
    let json ← look? depth item
    let entries ← lookAtValues? depth rest
    pure ((key, json) :: entries)

end

def ofTaggedText? (s : String) : Option Value := do
  let draft ← Draft.parse? s
  ofTagged? false (← look? Json.maxDepth draft)

end DocMapper.Value
