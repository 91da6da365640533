import DocMapper.Query.Builder
import DocMapper.Tracking.Atomics
/-!
The changes that bring a stored record up to date with its document.
-/

namespace DocMapper

/-- A path to be stored, with the value it has now, if any. -/
structure DirtyEntry where
  path : String
  value? : Option Value
  container? : Option Container

structure DeltaOp where
  kind : ChangeKind
  path : String
  operand : Value

structure Delta where
  rid? : Option RecordId
  ops : List DeltaOp

namespace Delta

def isEmpty (delta : Delta) : Bool :=
  delta.ops.isEmpty

def has (delta : Delta) (kind : ChangeKind) (path : String) : Bool :=
  delta.ops.any fun op => op.kind = kind && op.path = path

def opsOf (delta : Delta) (kind : ChangeKind) : List DeltaOp :=
  delta.ops.filter fun op => op.kind = kind

/-- Adds a change, unless its path is already set as a whole. -/
def push (delta : Delta) (op : DeltaOp) : Delta :=
  if delta.has .set op.path then delta else { delta with ops := delta.ops ++ [op] }

def pushAll (delta : Delta) (ops : List DeltaOp) : Delta :=
  ops.foldl push delta

def pairs (delta : Delta) (kind : ChangeKind) : List (String × Value) :=
  (delta.opsOf kind).map fun op => (op.path, op.operand)

/-- Gives the changes to an `UPDATE`, kind by kind. -/
def apply (delta : Delta) (s : Statement) : Statement :=
  let s := s.addChanges .set (delta.pairs .set)
  let s := s.addChanges .increment (delta.pairs .increment)
  let s := s.addChanges .add (delta.pairs .add)
  let s := s.addChanges .remove (delta.pairs .remove)
  (delta.opsOf .put).foldl (fun s op => s.put op.path (op.operand.map?.getD [])) s

end Delta

end DocMapper
