import DocMapper.Error
import DocMapper.Text.Blank
/-!
Comparison operators and the two connectives of conditions.
-/

namespace DocMapper

inductive Operator where
  | eq | like | lt | lte | gt | gte | ne | isIn | notIn | between | is | isNot | instanceOf
  | matches
  deriving DecidableEq

namespace Operator

def all : List Operator :=
  [.eq, .like, .lt, .lte, .gt, .gte, .ne, .isIn, .notIn, .between, .is, .isNot, .instanceOf,
   .matches]

/-- The code that stands for an operator in condition maps. -/
def code : Operator → String
  | .eq => "$eq"
  | .like => "$lk"
  | .lt => "$lt"
  | .lte => "$lte"
  | .gt => "$gt"
  | .gte => "$gte"
  | .ne => "$ne"
  | .isIn => "$in"
  | .notIn => "$nin"
  | .between => "$btw"
  | .is => "$is"
  | .isNot => "$isnt"
  | .instanceOf => "$io"
  | .matches => "$m"

def sql : Operator → String
  | .eq => "="
  | .like => "LIKE"
  | .lt => "<"
  | .lte => "<="
  | .gt => ">"
  | .gte => ">="
  | .ne => "<>"
  | .isIn => "IN"
  | .notIn => "NOT IN"
  | .between => "BETWEEN"
  | .is => "IS"
  | .isNot => "IS NOT"
  | .instanceOf => "INSTANCEOF"
  | .matches => "MATCHES"

/-- How an operator takes its operand. -/
inductive Shape where
  /-- One parameter, or a bracketed list of them. -/
  | basic
  /-- A bracketed list of parameters or a sub-query. -/
  | membership
  /-- Two bounds. -/
  | range
  /-- No operand at all. -/
  | nullTest
  deriving DecidableEq

def Shape.name : Shape → String
  | .basic => "basic"
  | .membership => "in"
  | .range => "between"
  | .nullTest => "null"

def shape : Operator → Shape
  | .isIn | .notIn => .membership
  | .between => .range
  | .is | .isNot => .nullTest
  | _ => .basic

/-- The operator that takes the place of another when the operand is null. -/
def forNull : Operator → Operator
  | .ne | .isNot => .isNot
  | _ => .is

/-- Other spellings, in lower case. -/
def ofSpelling? : String → Option Operator
  | "=" | "==" => some .eq
  | "like" => some .like
  | "<" => some .lt
  | "<=" => some .lte
  | ">" => some .gt
  | ">=" => some .gte
  | "<>" | "!=" => some .ne
  | "in" => some .isIn
  | "not in" | "nin" => some .notIn
  | "between" => some .between
  | "is" => some .is
  | "is not" | "isnt" => some .isNot
  | "instanceof" => some .instanceOf
  | "matches" => some .matches
  | _ => none

/-- Reads a code, or another spelling in any case of its ASCII letters. -/
def ofToken? (token : String) : Option Operator :=
  let trimmed := Text.trim token
  (all.find? fun op => op.code = trimmed).or (ofSpelling? (Text.lowerAscii trimmed))

def ofToken (token : String) : Except Error Operator :=
  match ofToken? token with
  | some op => .ok op
  | none => .error (.invalidOperator token)

def isCode (token : String) : Bool :=
  token.toList.head? = some '$' && (ofToken? token).isSome

end Operator

inductive Logic where
  | and
  | or
  deriving DecidableEq

namespace Logic

def sql : Logic → String
  | .and => "AND"
  | .or => "OR"

/-- Reads the key of a condition map that joins conditions. -/
def ofKey? : String → Option Logic
  | "$and" => some .and
  | "$or" => some .or
  | _ => none

end Logic

end DocMapper
