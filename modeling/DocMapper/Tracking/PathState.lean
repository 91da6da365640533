import DocMapper.Fields
/-!
The state of each path of a document. A path has one state at most.
-/

namespace DocMapper

inductive PathState where
  /-- Must hold something before the document is stored. -/
  | required
  /-- Changed since the document was last stored. -/
  | modified
  | loaded
  /-- Filled in by the schema. -/
  | defaulted
  deriving DecidableEq

namespace PathState

def all : List PathState :=
  [.required, .modified, .loaded, .defaulted]

def name : PathState → String
  | .required => "require"
  | .modified => "modify"
  | .loaded => "init"
  | .defaulted => "default"

def ofName? (name : String) : Option PathState :=
  all.find? fun state => state.name = name

end PathState

structure PathStates where
  states : Fields PathState

namespace PathStates

def empty : PathStates :=
  ⟨[]⟩

def enter (p : PathStates) (path : String) (state : PathState) : PathStates :=
  ⟨Fields.put p.states path state⟩

def enterAll (p : PathStates) (paths : List String) (state : PathState) : PathStates :=
  paths.foldl (fun p path => p.enter path state) p

def state? (p : PathStates) (path : String) : Option PathState :=
  Fields.get? p.states path

def isIn (p : PathStates) (path : String) (state : PathState) : Bool :=
  p.state? path = some state

def any (p : PathStates) (state : PathState) : Bool :=
  p.states.any fun entry => entry.2 = state

def pathsIn (p : PathStates) (state : PathState) : List String :=
  Fields.names (p.states.filter fun entry => entry.2 = state)

def clear (p : PathStates) (state : PathState) : PathStates :=
  ⟨p.states.filter fun entry => entry.2 ≠ state⟩

def forget (p : PathStates) (path : String) : PathStates :=
  ⟨Fields.drop p.states path⟩

theorem state?_enter_self (p : PathStates) (path : String) (state : PathState) :
    (p.enter path state).state? path = some state := by
  simp [state?, enter]

theorem state?_enter_of_ne (p : PathStates) {path other : String} (state : PathState)
    (h : other ≠ path) : (p.enter path state).state? other = p.state? other := by
  simp [state?, enter, Fields.get?_put_of_ne _ _ h]

theorem enter_enter (p : PathStates) (path : String) (earlier state : PathState) :
    (p.enter path earlier).enter path state = p.enter path state := by
  simp [enter, Fields.put_put]

end PathStates

end DocMapper
