import DocMapper.Query.Options
/-!
Whole statements from a class, conditions and values.
-/

namespace DocMapper

/-- A class by its name, or by a schema that values are cast by. -/
inductive ClassRef where
  | named (name : String)
  | ofSchema (schema : Schema)

namespace ClassRef

def className : ClassRef → String
  | .named name => name
  | .ofSchema schema => schema.className

def attach (target : ClassRef) (s : Statement) : Statement :=
  match target with
  | .named _ => s
  | .ofSchema schema => s.setSchema schema

end ClassRef

namespace Statement

/-- Takes the address out of the conditions, if it is among them. -/
def takeAddress (target : ClassRef) (conditions : Fields Value) : String × Fields Value :=
  match Fields.get? conditions "@rid" with
  | some v => (v.plainText, Fields.drop conditions "@rid")
  | none => (target.className, conditions)

def whereMap (s : Statement) (conditions : Fields Value) : Statement :=
  if conditions.isEmpty then s else s.andWhere (.ofMap conditions)

def insertInto (target : ClassRef) (record : Fields Value) (options : Fields Json) : Statement :=
  (((target.attach insert).setInto target.className).addChanges .set record).setOptions options

/-- An update operation under its dollar name. -/
def updateOperation (s : Statement) (name : String) (operand : Value) : Statement :=
  match name with
  | "$content" => s.content operand
  | "$merge" => s.merge operand
  | _ =>
    match ChangeKind.ofText? name with
    | none => s.recordError (.unsupportedClause .update name)
    | some kind =>
      match operand with
      | .map changes => s.change kind changes
      | other => s.recordError (.invalidArgument
          s!"{name} expects a map of changes, got {other.literal}")

/-- An address among the conditions becomes the target. Keys with a dollar sign are operations, the
others are set, before the operations. -/
def updateWhere (target : ClassRef) (conditions update : Fields Value) (options : Fields Json) :
    Statement :=
  let (address, conditions) := takeAddress target conditions
  let s := (target.attach (Statement.update address)).whereMap conditions
  let s := s.addChanges .set (update.filter fun entry => !Condition.startsWithDollar entry.1)
  let operations := update.filter fun entry => Condition.startsWithDollar entry.1
  (operations.foldl (fun s entry => s.updateOperation entry.1 entry.2) s).setOptions options

def deleteWhere (target : ClassRef) (conditions : Fields Value) (options : Fields Json) :
    Statement :=
  (((target.attach delete).setSource (.target target.className)).whereMap conditions).setOptions
    options

/-- An address among the conditions becomes the source. -/
def selectWhere (target : ClassRef) (conditions : Fields Value) (projections : List Projection)
    (options : Fields Json) : Statement :=
  let (source, conditions) := takeAddress target conditions
  (((target.attach (selectOf projections)).setSource (.target source)).whereMap
    conditions).setOptions options

end Statement

end DocMapper
