import DocMapper.Query.Kind
/-!
The clauses of each kind of statement, in the order in which they are written.
-/

namespace DocMapper

inductive Clause where
  | select | traverse | insert | update | delete | into | from | let | where | group | order
  | skip | limit | fetchPlan | timeout | lock | parallel | set | increment | add | remove | put
  | content | merge | upsert | return | strategy
  deriving DecidableEq

def Clause.name : Clause → String
  | .select => "Select"
  | .traverse => "Traverse"
  | .insert => "Insert"
  | .update => "Update"
  | .delete => "Delete"
  | .into => "Into"
  | .from => "From"
  | .let => "Let"
  | .where => "Where"
  | .group => "Group"
  | .order => "Order"
  | .skip => "Skip"
  | .limit => "Limit"
  | .fetchPlan => "FetchPlan"
  | .timeout => "Timeout"
  | .lock => "Lock"
  | .parallel => "Parallel"
  | .set => "Set"
  | .increment => "Increment"
  | .add => "Add"
  | .remove => "Remove"
  | .put => "Put"
  | .content => "Content"
  | .merge => "Merge"
  | .upsert => "Upsert"
  | .return => "Return"
  | .strategy => "Strategy"

namespace StatementKind

def clauses : StatementKind → List Clause
  | .select =>
    [.select, .from, .let, .where, .group, .order, .skip, .limit, .fetchPlan, .timeout, .lock,
     .parallel]
  | .insert => [.insert, .into, .set, .from, .return]
  | .update =>
    [.update, .set, .increment, .add, .remove, .put, .content, .merge, .upsert, .return, .where,
     .lock, .limit, .timeout]
  | .delete => [.delete, .from, .lock, .return, .where, .limit, .timeout]
  | .traverse => [.traverse, .from, .let, .where, .limit, .strategy]

def whereKeyword : StatementKind → String
  | .traverse => "WHILE"
  | _ => "WHERE"

/-- Whether several addresses may be listed as sources. -/
def allowsAddressList : StatementKind → Bool
  | .insert => false
  | _ => true

end StatementKind

end DocMapper
