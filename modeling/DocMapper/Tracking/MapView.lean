import DocMapper.Schema
import DocMapper.Tracking.Atomics
/-!
A map of a document while it is worked on.
-/

namespace DocMapper

structure MapView where
  path : String
  entries : Fields Value
  atomics : MapAtomics
  /-- Whether the path is to be marked modified. -/
  touched : Bool
  schema : Schema

namespace MapView

def put (view : MapView) (key : String) (v : Value) : Except Error MapView :=
  match view.schema.castItem view.path v with
  | .error e => .error (.cast e)
  | .ok w =>
    .ok { view with
      entries := Fields.put view.entries key w
      atomics := view.atomics.pushPut key w
      touched := true }

/-- Puts entries one after the other. The first failure ends it, and those before it stay. -/
def putAll (view : MapView) : List (String × Value) → Option Error × MapView
  | [] => (none, view)
  | (key, v) :: rest =>
    match view.put key v with
    | .error e => (some e, view)
    | .ok view => putAll view rest

def removeKey (view : MapView) (key : String) : MapView :=
  { view with
    entries := Fields.drop view.entries key
    atomics := view.atomics.pushRemove key
    touched := true }

/-- Removes the entries of some keys, and counts them. -/
def remove (view : MapView) : List String → Nat × MapView
  | [] => (0, view)
  | key :: rest =>
    if Fields.has view.entries key then
      let (count, view) := remove (view.removeKey key) rest
      (count + 1, view)
    else remove view rest

end MapView

end DocMapper
