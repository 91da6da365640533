import DocMapper.Schema.FieldType
/-!
Declared fields and the checks on their values.
-/

namespace DocMapper

structure Field where
  type : FieldType
  required : Bool
  default? : Option Value
  /-- The strings allowed; none at all means any. -/
  oneOf : List String
  /-- The least number, or the least length of a string. -/
  min? : Option Double
  /-- The greatest number, or the greatest length of a string. -/
  max? : Option Double

namespace Field

def ofType (type : FieldType) : Field :=
  ⟨type, false, none, [], none, none⟩

/-- Null and the empty string count as missing. -/
def isMissing : Value → Bool
  | .null => true
  | .string s => s.isEmpty
  | _ => false

/-- Which bound a measure breaks. -/
inductive Bound where
  | min (bound : Double)
  | max (bound : Double)

def brokenBound? (field : Field) (measure : Double) : Option Bound :=
  match field.min?.filter (measure.lt ·) with
  | some bound => some (.min bound)
  | none => (field.max?.filter fun bound => bound.lt measure).map .max

/-- The failure for a broken bound, in the wording for numbers or for lengths. -/
def boundFailure (path minText maxText : String) (v : Value) : Bound → PathFailure
  | .min bound =>
    (PathFailure.ofTemplate path "min" minText v).withBound Message.minMark bound.plain
  | .max bound =>
    (PathFailure.ofTemplate path "max" maxText v).withBound Message.maxMark bound.plain

/-- The first check that a value fails: presence, then the allowed strings, then the bounds. -/
def failure? (field : Field) (path : String) (v : Value) : Option PathFailure :=
  if field.required && isMissing v then
    some (.ofTemplate path "required" Message.required v)
  else
    match v with
    | .string s =>
      if !field.oneOf.isEmpty && !field.oneOf.contains s then
        some (.ofTemplate path "enum" Message.stringEnum v)
      else
        (field.brokenBound? (Double.ofNat s.length)).map
          (boundFailure path Message.stringMin Message.stringMax v)
    | .int n =>
      (field.brokenBound? (Double.ofInt n.toInt)).map
        (boundFailure path Message.numberMin Message.numberMax v)
    | .float d =>
      (field.brokenBound? d).map (boundFailure path Message.numberMin Message.numberMax v)
    | _ => none

end Field

end DocMapper
