import DocMapper.Schema
import DocMapper.Tracking.Atomics
/-!
A list of a document while it is worked on. Every operation that changes the items also says how
the change is stored.
-/

namespace DocMapper

structure ListView where
  path : String
  items : List Value
  atomics : ListAtomics
  /-- Whether the path is to be marked modified. -/
  touched : Bool
  schema : Schema
  /-- Whether values already present are skipped. -/
  isSet : Bool

namespace ListView

def castItem (view : ListView) (v : Value) : Except Error Value :=
  match view.schema.castItem view.path v with
  | .ok w => .ok w
  | .error e => .error (.cast e)

def castItems (view : ListView) (values : List Value) : Except Error (List Value) :=
  values.mapM view.castItem

/-- Takes new items that no single change of the stored list brings about. -/
def replaceItems (view : ListView) (items : List Value) : ListView :=
  { view with items := items, atomics := .set, touched := true }

/-- The values that a push appends: all, or for a set those that are new. -/
def newItems (view : ListView) (values : List Value) : List Value :=
  if view.isSet then FieldType.distinctFrom view.items values else values

/-- Appends values and answers with the new length. -/
def push (view : ListView) (values : List Value) : Except Error (Nat × ListView) := do
  let values ← view.castItems values
  let added := view.newItems values
  let view :=
    if added.isEmpty then view
    else { view with
      items := view.items ++ added
      atomics := view.atomics.pushAdd added
      touched := true }
  pure (view.items.length, view)

def pop (view : ListView) : Option Value × ListView :=
  match view.items.getLast? with
  | some last => (some last, view.replaceItems view.items.dropLast)
  | none => (none, view)

def shift (view : ListView) : Option Value × ListView :=
  match view.items with
  | first :: rest => (some first, view.replaceItems rest)
  | [] => (none, view)

/-- Puts values in front and answers with the new length. -/
def unshift (view : ListView) (values : List Value) : Except Error (Nat × ListView) := do
  let values ← view.castItems values
  let view := if values.isEmpty then view else view.replaceItems (values ++ view.items)
  pure (view.items.length, view)

/-- Replaces `count` items from `start` on, as far as there are any, and answers with them. -/
def splice (view : ListView) (start count : Nat) (values : List Value) :
    Except Error (List Value × ListView) := do
  let values ← view.castItems values
  let before := view.items.take start
  let rest := view.items.drop start
  pure (rest.take count, view.replaceItems (before ++ values ++ rest.drop count))

/-- Sorts the items; equal ones keep their order. -/
def sortBy (view : ListView) (le : Value → Value → Bool) : ListView :=
  view.replaceItems (view.items.mergeSort le)

def set (view : ListView) (index : Nat) (v : Value) : Except Error ListView := do
  let v ← view.castItem v
  if index < view.items.length then pure (view.replaceItems (view.items.set index v))
  else throw (.invalidArgument
    s!"index {index} out of bounds for list of {view.items.length}")

/-- Removes every item that equals one of the values, and counts them. -/
def pull (view : ListView) (values : List Value) : Except Error (Nat × ListView) := do
  let values ← view.castItems values
  let kept := view.items.filter fun item => !item.occursIn values
  let removed := view.items.length - kept.length
  if removed = 0 then pure (0, view)
  else
    pure (removed, { view with
      items := kept
      atomics := view.atomics.pushRemove values
      touched := true })

end ListView

end DocMapper
