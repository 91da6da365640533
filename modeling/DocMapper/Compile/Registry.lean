import DocMapper.Value
/-!
The parameters of one compilation. Callers bring named values, and the compiler binds others to
generated names, a stem and a number. A generated name is never one that is taken.
-/

namespace DocMapper

/-- What happens to the parameters of a compilation. -/
inductive Registry.Event where
  | merged (params : Fields Value)
  | bound (name : String) (v : Value)

structure Registry where
  stem : String
  params : Fields Value
  /-- The number to try next; none before the first binding. -/
  next? : Option Nat
  /-- All that has happened, in order. -/
  history : List Registry.Event

namespace Registry

def ofStem (stem : String) : Registry :=
  ⟨stem, [], none, []⟩

def nameOf (stem : String) (index : Nat) : String :=
  stem ++ Nat.repr index

def merge (r : Registry) (params : Fields Value) : Registry :=
  { r with params := Fields.merge r.params params, history := r.history ++ [.merged params] }

/-- The first number from `index` on whose name is free, if one of the next `fuel` is. -/
def firstFree (stem : String) (params : Fields Value) : Nat → Nat → Nat
  | 0, index => index
  | fuel + 1, index =>
    if Fields.has params (nameOf stem index) then firstFree stem params fuel (index + 1) else index

/-- The number that the next binding takes: from the counter on, or from the number of parameters
if nothing was bound yet. Among more numbers than there are parameters one is free. -/
def nextIndex (r : Registry) : Nat :=
  firstFree r.stem r.params r.params.length (r.next?.getD r.params.length)

/-- Binds a value to a new name, which is written with a colon before it. -/
def bind (r : Registry) (v : Value) : String × Registry :=
  let index := r.nextIndex
  let name := nameOf r.stem index
  (":" ++ name, { r with
    params := Fields.put r.params name v
    next? := some (index + 1)
    history := r.history ++ [.bound name v] })

end Registry

end DocMapper
