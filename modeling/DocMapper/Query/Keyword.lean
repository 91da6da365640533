import DocMapper.Text.Ascii
import DocMapper.Text.Blank
/-!
Words that choose between a few ways of doing something. Where a word comes from outside and is
not known, the usual way is taken.
-/

namespace DocMapper

/-- Equality up to the case of ASCII letters. -/
def sameWord (a b : String) : Bool :=
  Text.lowerAscii a = Text.lowerAscii b

inductive Direction where
  | ascending
  | descending
  deriving DecidableEq

namespace Direction

def sql : Direction → String
  | .ascending => "ASC"
  | .descending => "DESC"

def ofText (s : String) : Direction :=
  if sameWord (Text.trim s) "desc" then .descending else .ascending

end Direction

inductive LockMode where
  | default
  | record
  deriving DecidableEq

namespace LockMode

def sql : LockMode → String
  | .default => "default"
  | .record => "record"

def ofText (s : String) : LockMode :=
  if sameWord (Text.trim s) "record" then .record else .default

end LockMode

inductive Strategy where
  | depthFirst
  | breadthFirst
  deriving DecidableEq

namespace Strategy

def sql : Strategy → String
  | .depthFirst => "DEPTH_FIRST"
  | .breadthFirst => "BREADTH_FIRST"

def ofText (s : String) : Strategy :=
  if sameWord (Text.trim s) "BREADTH_FIRST" then .breadthFirst else .depthFirst

end Strategy

inductive ChangeKind where
  | set
  | increment
  | add
  | remove
  | put
  deriving DecidableEq

namespace ChangeKind

def name : ChangeKind → String
  | .set => "set"
  | .increment => "increment"
  | .add => "add"
  | .remove => "remove"
  | .put => "put"

def sql : ChangeKind → String
  | .set => "SET"
  | .increment => "INCREMENT"
  | .add => "ADD"
  | .remove => "REMOVE"
  | .put => "PUT"

def all : List ChangeKind :=
  [.set, .increment, .add, .remove, .put]

/-- Reads a name; any dollar signs before it are dropped. -/
def ofText? (s : String) : Option ChangeKind :=
  let bare := String.ofList (s.toList.dropWhile (· = '$'))
  all.find? fun kind => kind.name = bare

end ChangeKind

end DocMapper
