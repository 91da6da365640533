/-!
The kinds of statements.
-/

namespace DocMapper

inductive StatementKind where
  | select
  | insert
  | update
  | delete
  | traverse
  deriving DecidableEq

namespace StatementKind

def keyword : StatementKind → String
  | .select => "SELECT"
  | .insert => "INSERT"
  | .update => "UPDATE"
  | .delete => "DELETE"
  | .traverse => "TRAVERSE"

end StatementKind

end DocMapper
