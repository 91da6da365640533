import DocMapper.Entries
import DocMapper.Json
/-!
Tables of TOML while they are filled. A table may be opened once by its header and is closed to
dotted keys then; a table made by dotted keys has no header; nothing is written twice.
-/

namespace DocMapper.Toml

inductive Node where
  | value (json : Json)
  /-- A table; `implicit` if only paths through it were written, `dotted` if by dotted keys. -/
  | table (implicit dotted : Bool) (entries : List (String × Node))
  /-- An array of tables, of which the last is open. -/
  | tables (items : List (List (String × Node)))

/-- The entries of a table, and whether dotted keys made it. -/
structure Open where
  dotted : Bool
  entries : List (String × Node)

def changeLast? {α : Type} (change : α → Option α) : List α → Option (List α)
  | [] => none
  | [last] => (change last).map fun a => [a]
  | item :: rest => (changeLast? change rest).map (item :: ·)

/-- Changes the table at the end of a path, making the tables on the way. -/
def changeAt? (dotted : Bool) (change : Open → Option (List (String × Node))) :
    List String → Open → Option (List (String × Node))
  | [], t => change t
  | name :: path, t =>
    match t.entries.lookup name with
    | none => do
      let entries ← changeAt? dotted change path ⟨dotted, []⟩
      pure (Entries.assign name (.table true dotted entries) t.entries)
    | some (.value _) => none
    | some (.tables items) => do
      let items ← changeLast? (fun entries => changeAt? dotted change path ⟨false, entries⟩) items
      pure (Entries.assign name (.tables items) t.entries)
    | some (.table implicit wasDotted entries) =>
      if dotted && !implicit then none
      else do
        let entries ← changeAt? dotted change path ⟨wasDotted, entries⟩
        pure (Entries.assign name (.table implicit wasDotted entries) t.entries)

/-- Writes a new entry of a table. Dotted keys only go on with tables that they made. -/
def addValue? (isDotted : Bool) (name : String) (json : Json) (t : Open) :
    Option (List (String × Node)) :=
  if t.dotted = isDotted && (t.entries.lookup name).isNone then
    some (t.entries ++ [(name, .value json)])
  else none

/-- Writes an entry under a path of names, of which the last is its own. -/
def addPair? (names : List String) (json : Json) (t : Open) : Option (List (String × Node)) :=
  match names.getLast? with
  | none => none
  | some name =>
    let path := names.dropLast
    changeAt? true (addValue? (!path.isEmpty) name json) path t

def openTable? (names : List String) (t : Open) : Option (List (String × Node)) :=
  match names.getLast? with
  | none => none
  | some name =>
    changeAt? false (fun t =>
      match t.entries.lookup name with
      | none => some (Entries.assign name (.table false false []) t.entries)
      | some (.table true false entries) =>
        some (Entries.assign name (.table false false entries) t.entries)
      | some _ => none) names.dropLast t

def openItem? (names : List String) (t : Open) : Option (List (String × Node)) :=
  match names.getLast? with
  | none => none
  | some name =>
    changeAt? false (fun t =>
      match t.entries.lookup name with
      | none => some (Entries.assign name (.tables [[]]) t.entries)
      | some (.tables items) => some (Entries.assign name (.tables (items ++ [[]])) t.entries)
      | some _ => none) names.dropLast t

mutual

def Node.toJson : Node → Json
  | .value json => json
  | .table _ _ entries => .obj (entriesToJson entries)
  | .tables items => .arr (itemsToJson items)

def entriesToJson : List (String × Node) → List (String × Json)
  | [] => []
  | (name, node) :: rest => (name, node.toJson) :: entriesToJson rest

def itemsToJson : List (List (String × Node)) → List Json
  | [] => []
  | entries :: rest => .obj (entriesToJson entries) :: itemsToJson rest

end

end DocMapper.Toml
