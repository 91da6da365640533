import DocMapper.Json
import DocMapper.Number.Reading
/-!
Types that have a form as plain data. Reading is strict: null stands for nothing only where nothing
is allowed, and numbers have to fit their type.
-/

namespace DocMapper.Json

class Writable (α : Type) where
  write : α → Json

class Readable (α : Type) where
  read? : Json → Option α

export Writable (write)
export Readable (read?)

variable {α β : Type}

instance : Writable Json := ⟨id⟩

instance : Writable String := ⟨.str⟩

instance : Writable Bool := ⟨.bool⟩

instance : Writable Nat := ⟨fun n => .int n⟩

instance : Writable Int64 := ⟨fun n => .int n.toInt⟩

instance : Writable Unit := ⟨fun _ => .null⟩

instance [Writable α] : Writable (Option α) where
  write
    | none => .null
    | some a => write a

instance [Writable α] : Writable (List α) := ⟨fun items => .arr (items.map write)⟩

instance [Writable α] [Writable β] : Writable (α × β) := ⟨fun (a, b) => .arr [write a, write b]⟩

instance : Readable Json := ⟨some⟩

instance : Readable String := ⟨str?⟩

instance : Readable Bool := ⟨bool?⟩

instance : Readable Int where
  read?
    | .int n => some n
    | _ => none

instance : Readable Int64 := ⟨fun json => (read? json).bind Number.int64?⟩

instance : Readable UInt64 := ⟨fun json => (read? json).bind Number.uint64?⟩

instance : Readable Nat := ⟨fun json => (read? json).map UInt64.toNat⟩

instance : Readable Double where
  read?
    | .int n => some (Double.ofInt n)
    | .float d => some d
    | _ => none

instance [Readable α] : Readable (Option α) where
  read?
    | .null => some none
    | json => (read? json).map some

instance [Readable α] : Readable (List α) := ⟨fun json => json.arr?.bind (·.mapM read?)⟩

instance [Readable α] [Readable β] : Readable (α × β) where
  read?
    | .arr [a, b] => (read? a).bind fun a => (read? b).map fun b => (a, b)
    | _ => none

end DocMapper.Json
