import DocMapper.Tracking.Delta
import DocMapper.Tracking.ListView
import DocMapper.Tracking.MapView
import DocMapper.Tracking.PathState
import DocMapper.Tracking.Selection
/-!
Documents that know which of their paths have changed. A new document is stored whole, a loaded
one by the least changes that bring its record up to date.
-/

namespace DocMapper

structure Document where
  schema : Schema
  dialect : Dialect
  rid? : Option RecordId
  values : Fields Value
  paths : PathStates
  atomics : Fields Atomics
  selection? : Option Selection
  isNew : Bool

namespace Document

/-! ### Making documents -/

/-- A document without values, in which the required paths are marked. -/
def blank (schema : Schema) (isNew : Bool) : Document where
  schema := schema
  dialect := .default
  rid? := none
  values := []
  paths := PathStates.empty.enterAll schema.requiredPaths .required
  atomics := []
  selection? := none
  isNew := isNew

def fillDefault (doc : Document) (path : String) : Document :=
  match doc.schema.default? path with
  | some v =>
    { doc with values := Fields.put doc.values path v, paths := doc.paths.enter path .defaulted }
  | none => doc

def new (schema : Schema) : Document :=
  schema.paths.foldl fillDefault (blank schema true)

/-- Whether a path was among those loaded; everything is without a selection. -/
def isSelected (doc : Document) (path : String) : Bool :=
  doc.selection?.all (·.contains path)

def ridOf (v : Value) : Except Error RecordId :=
  match v with
  | .link id => .ok id
  | .string s =>
    match RecordId.ofText? s with
    | some id => .ok id
    | none => .error (.invalidRecordId s)
  | other => .error (.invalidRecordId other.plainText)

/-- Takes in an entry of a stored record. The address is kept apart, and other names that start with
`@` are the database's own. -/
def loadEntry (doc : Document) (entry : String × Value) : Except Error Document :=
  if entry.1 = "@rid" then (ridOf entry.2).map fun id => { doc with rid? := some id }
  else if entry.1.toList.head? = some '@' then .ok doc
  else
    match doc.schema.cast entry.1 entry.2 with
    | .error e => .error (.cast e)
    | .ok v =>
      .ok { doc with
        values := Fields.put doc.values entry.1 v
        paths := doc.paths.enter entry.1 .loaded }

/-- A document loaded from a record, with defaults for the selected paths that the record lacks. -/
def hydrate (schema : Schema) (record : Fields Value) (selection? : Option Selection) :
    Except Error Document := do
  let doc ← record.foldlM loadEntry { blank schema false with selection? := selection? }
  pure (schema.paths.foldl
    (fun doc path =>
      if Fields.has doc.values path || !doc.isSelected path then doc else doc.fillDefault path)
    doc)

/-! ### Reading -/

def className (doc : Document) : String :=
  doc.schema.className

def get? (doc : Document) (path : String) : Option Value :=
  valueAt? doc.values path

def toValue (doc : Document) : Value :=
  .map doc.values

def isDirectModified (doc : Document) (path : String) : Bool :=
  doc.paths.isIn path .modified

def hasModifications (doc : Document) : Bool :=
  doc.paths.any .modified

/-- The modified paths and all that lead to them, in order. -/
def modifiedPaths (doc : Document) : List String :=
  Fields.names (Fields.ofList
    (((doc.paths.pathsIn .modified).flatMap lineage).map fun path => (path, ())))

/-- Whether a path or one below it is modified. -/
def isModified (doc : Document) (path : String) : Bool :=
  doc.modifiedPaths.contains path

def isLoaded (doc : Document) (path : String) : Bool :=
  doc.paths.isIn path .loaded

/-! ### Assignment -/

def markModified (doc : Document) (path : String) : Document :=
  { doc with paths := doc.paths.enter path .modified }

/-- The path that an assignment marks: the first on the way that is already modified or holds null,
otherwise the path itself. -/
def pathToMark (doc : Document) (path : String) : String :=
  if hasDot path then
    ((lineage path).find? fun ancestor =>
      doc.isDirectModified ancestor || (doc.get? ancestor).any Value.isNull).getD path
  else path

/-- Whether an assignment has to be stored. A new document stores everything. Removing a value
counts if the value was loaded or is not known to be absent. A default counts when it is assigned
again. -/
def shouldModify (doc : Document) (toMark path : String) (v? : Option Value) : Bool :=
  if doc.isNew then true
  else if doc.isDirectModified toMark then false
  else
    let isDefault := doc.paths.isIn path .defaulted
    match v? with
    | none => !doc.isSelected path || (!isDefault && (doc.get? path).isSome)
    | some v =>
      if !Value.eqvOption (doc.get? path) (some v) then true
      else
        !v.isNull && isDefault && Value.eqvOption (doc.schema.default? path) (some v)

/-- What an assignment leaves of the pending changes: those of the path itself if the path is
marked, and those of the containers it lies in, give way to a whole write. -/
def collapseAround (doc : Document) (path : String) : Fields Atomics :=
  doc.atomics.map fun entry =>
    if (entry.1 = path && doc.isDirectModified path) ||
        (isBelow path entry.1 && entry.2.isPending) then
      (entry.1, entry.2.collapse)
    else entry

def assign (doc : Document) (path : String) (v? : Option Value) : Document :=
  let toMark := doc.pathToMark path
  let doc := if doc.shouldModify toMark path v? then doc.markModified toMark else doc
  { doc with atomics := doc.collapseAround path, values := writeAt doc.values path v? }

def set (doc : Document) (path : String) (v : Value) : Except Error Document :=
  match doc.schema.cast path v with
  | .ok w => .ok (doc.assign path (some w))
  | .error e => .error (.cast e)

def unset (doc : Document) (path : String) : Document :=
  doc.assign path none

/-! ### Views -/

def notContainer (path expected : String) (found? : Option Value) : Error :=
  let found := (found?.map Value.typeName).getD "nothing"
  .invalidArgument s!"{path} holds {found}, expected a {expected}"

/-- The values with an empty container at a path where there is nothing. -/
def withContainer (doc : Document) (path : String) (container : Value) : Document :=
  match doc.get? path with
  | some _ => doc
  | none => { doc with values := writeAt doc.values path (some container) }

/-- What is pending for the list at a path. What is left of a map there gives way to a whole
write. -/
def listAtomics (doc : Document) (path : String) : ListAtomics :=
  match Fields.get? doc.atomics path with
  | some (.list atomics) => atomics
  | some (.map _) => .set
  | none => .clean

def mapAtomics (doc : Document) (path : String) : MapAtomics :=
  match Fields.get? doc.atomics path with
  | some (.map atomics) => atomics
  | some (.list _) => .set
  | none => .clean

def touch (doc : Document) (path : String) (touched : Bool) : Document :=
  if touched then doc.markModified path else doc

/-- Opens the list at a path; a missing one is made. -/
def openList (doc : Document) (path : String) : Except Error ListView :=
  match doc.get? path with
  | some (.list items) =>
    let isSet : Bool := doc.schema.container? path = some .set
    .ok ⟨path, items, doc.listAtomics path, false, doc.schema, isSet⟩
  | other => .error (notContainer path "list" other)

def closeList (doc : Document) (view : ListView) : Document :=
  { doc with
    values := writeAt doc.values view.path (some (.list view.items))
    atomics := Fields.put doc.atomics view.path (.list view.atomics) }.touch view.path view.touched

def editList {α : Type} (doc : Document) (path : String) (edit : ListView → α × ListView) :
    Except Error (α × Document) := do
  let doc := doc.withContainer path (.list [])
  let view ← doc.openList path
  let (answer, view) := edit view
  pure (answer, doc.closeList view)

def openMap (doc : Document) (path : String) : Except Error MapView :=
  match doc.get? path with
  | some (.map entries) => .ok ⟨path, entries, doc.mapAtomics path, false, doc.schema⟩
  | other => .error (notContainer path "map" other)

def closeMap (doc : Document) (view : MapView) : Document :=
  { doc with
    values := writeAt doc.values view.path (some (.map view.entries))
    atomics := Fields.put doc.atomics view.path (.map view.atomics) }.touch view.path view.touched

def editMap {α : Type} (doc : Document) (path : String) (edit : MapView → α × MapView) :
    Except Error (α × Document) := do
  let doc := doc.withContainer path (.map [])
  let view ← doc.openMap path
  let (answer, view) := edit view
  pure (answer, doc.closeMap view)

/-! ### What has to be stored -/

/-- Keeps the paths that lie below none kept before. The containers that the others lie in are
written whole. -/
def coverStep (acc : List String × Fields Atomics) (path : String) :
    List String × Fields Atomics :=
  match acc.1.find? fun kept => isBelow path kept with
  | some top =>
    (acc.1, acc.2.map fun entry =>
      if entry.1 = top && entry.2.isPending then (entry.1, entry.2.collapse) else entry)
  | none => (acc.1 ++ [path], acc.2)

def cover (doc : Document) : List String × Fields Atomics :=
  (doc.paths.pathsIn .modified).foldl coverStep ([], doc.atomics)

def dirtyEntry (doc : Document) (path : String) : DirtyEntry :=
  ⟨path, doc.get? path, doc.schema.container? path⟩

/-- The least paths that hold all modifications, and the document with the pending changes that
still apply. -/
def dirty (doc : Document) : List DirtyEntry × Document :=
  let (paths, atomics) := doc.cover
  (paths.map doc.dirtyEntry, { doc with atomics := atomics })

def entryOps (doc : Document) (entry : DirtyEntry) : List DeltaOp :=
  let v := entry.value?.getD .null
  match Fields.get? doc.atomics entry.path with
  | some atomics =>
    if v.isNull then [⟨.set, entry.path, v⟩]
    else (atomics.ops v doc.dialect).map fun op => ⟨op.kind, entry.path, op.operand⟩
  | none => [⟨.set, entry.path, v⟩]

/-- The changes that bring the stored record up to date. -/
def delta (doc : Document) : Delta × Document :=
  let (entries, doc) := doc.dirty
  (entries.foldl (fun delta entry => delta.pushAll (doc.entryOps entry)) ⟨doc.rid?, []⟩, doc)

/-! ### Validation -/

/-- The paths to be checked: required ones if selected or changed, and all that were loaded, changed
or filled in. -/
def pathsToCheck (doc : Document) : List String :=
  let required := (doc.paths.pathsIn .required).filter fun path =>
    doc.isSelected path || doc.isModified path
  (required ++ doc.paths.pathsIn .loaded ++ doc.paths.pathsIn .modified ++
    doc.paths.pathsIn .defaulted).filter fun path => !hasDot path && doc.schema.has path

def failureAt? (doc : Document) (path : String) : Option PathFailure :=
  doc.schema.failure? path ((doc.get? path).getD .null)

def validationError (doc : Document) : ValidationError :=
  (doc.pathsToCheck.filterMap doc.failureAt?).foldl ValidationError.insert .empty

def validate (doc : Document) : Except Error Unit :=
  let e := doc.validationError
  if e.isEmpty then .ok () else .error (.validation e)

/-- Forgets what has changed, and marks the required paths again. -/
def reset (doc : Document) : Document :=
  { doc with
    atomics := Fields.mapValues Atomics.clear doc.atomics
    paths := (doc.paths.clear .modified).enterAll doc.schema.requiredPaths .required }

end Document

end DocMapper
