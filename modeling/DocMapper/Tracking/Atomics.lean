import DocMapper.Config
import DocMapper.Query.Keyword
import DocMapper.Value
/-!
What happened to a container since its document was stored, in a form that can be written as a
change of the stored container. Where no such form is left the container is written whole.
-/

namespace DocMapper

structure AtomicOp where
  kind : ChangeKind
  operand : Value

/-- A single value stands for itself. -/
def singleOrList : List Value → Value
  | [single] => single
  | many => .list many

/-- What is pending for a list. -/
inductive ListAtomics where
  | clean
  /-- The list is written whole. -/
  | set
  | add (values : List Value)
  | remove (values : List Value)

namespace ListAtomics

/-- Values were appended. On top of anything but appended values the list is written whole. -/
def pushAdd (atomics : ListAtomics) (values : List Value) : ListAtomics :=
  match atomics with
  | .clean => .add values
  | .add earlier => .add (earlier ++ values)
  | _ => .set

/-- Values were removed. On top of anything but removed values the list is written whole. -/
def pushRemove (atomics : ListAtomics) (values : List Value) : ListAtomics :=
  match atomics with
  | .clean => .remove values
  | .remove earlier => .remove (earlier ++ values)
  | _ => .set

def isPending : ListAtomics → Bool
  | .clean => false
  | _ => true

/-- The change that stores the list. With `structuredAsSet` the list is written whole when embedded
documents were removed from it. -/
def op (atomics : ListAtomics) (current : List Value) (structuredAsSet : Bool) : AtomicOp :=
  match atomics with
  | .clean | .set => ⟨.set, .list current⟩
  | .add values => ⟨.add, singleOrList values⟩
  | .remove values =>
    if structuredAsSet && values.any Value.isStructured then ⟨.set, .list current⟩
    else ⟨.remove, singleOrList values⟩

end ListAtomics

inductive MapAtomics where
  | clean
  | set
  /-- The last value put under each key, and the keys removed, in order of their removal. -/
  | pending (puts : Fields Value) (removes : List String)

namespace MapAtomics

/-- An entry was put, which undoes an earlier removal of its key. -/
def pushPut (atomics : MapAtomics) (key : String) (v : Value) : MapAtomics :=
  match atomics with
  | .clean => .pending [(key, v)] []
  | .set => .set
  | .pending puts removes => .pending (Fields.put puts key v) (removes.filter (· ≠ key))

/-- A key was removed, which undoes an earlier put under it. -/
def pushRemove (atomics : MapAtomics) (key : String) : MapAtomics :=
  match atomics with
  | .clean => .pending [] [key]
  | .set => .set
  | .pending puts removes =>
    .pending (Fields.drop puts key) (if removes.contains key then removes else removes ++ [key])

def isPending : MapAtomics → Bool
  | .clean => false
  | _ => true

/-- The changes that store the map: at most one `PUT` and one `REMOVE`, or the map written whole. -/
def ops (atomics : MapAtomics) (current : Fields Value) : List AtomicOp :=
  match atomics with
  | .clean | .set => [⟨.set, .map current⟩]
  | .pending puts removes =>
    (if puts.isEmpty then [] else [⟨.put, .map puts⟩]) ++
      (if removes.isEmpty then [] else [⟨.remove, singleOrList (removes.map .string)⟩])

end MapAtomics

inductive Atomics where
  | list (atomics : ListAtomics)
  | map (atomics : MapAtomics)

namespace Atomics

def isPending : Atomics → Bool
  | .list atomics => atomics.isPending
  | .map atomics => atomics.isPending

/-- The container is written whole. -/
def collapse : Atomics → Atomics
  | .list _ => .list .set
  | .map _ => .map .set

/-- Nothing is pending any more. -/
def clear : Atomics → Atomics
  | .list _ => .list .clean
  | .map _ => .map .clean

/-- The changes that store a container. A value of another shape is written whole. -/
def ops (atomics : Atomics) (current : Value) (dialect : Dialect) : List AtomicOp :=
  match atomics, current with
  | .list atomics, .list items => [atomics.op items dialect.structuredPullAsSet]
  | .map atomics, .map entries => atomics.ops entries
  | _, other => [⟨.set, other⟩]

end Atomics

end DocMapper
