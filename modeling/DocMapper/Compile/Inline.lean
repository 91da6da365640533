import DocMapper.Text.Ascii
import DocMapper.Value.Literal
/-!
Filling parameters into text. A colon and the longest name after it are replaced by the literal of
the parameter of that name; the text filled in is not looked at again.
-/

namespace DocMapper.Inline

/-- The longest name at the start of a text: a letter, then letters, digits and underscores. -/
def nameAt : List Char → List Char
  | [] => []
  | c :: rest => if Text.isAsciiLetter c then c :: rest.takeWhile Text.isNameChar else []

/-- The literal filled in for a value; strings are in single quotes here. -/
def filled : Value → List Char
  | .string s => (Text.singleQuoted s).toList
  | other => other.literalChars

/-- What stands for a colon and a name: the literal of the parameter, or the two themselves if
there is no such parameter or it is null. -/
def replacement (params : Fields Value) (name : List Char) : List Char :=
  match Fields.get? params (String.ofList name) with
  | some v => if name.isEmpty || v.isNull then ':' :: name else filled v
  | none => ':' :: name

/-- Copies a text; `skip` characters of a name that is done are still to be passed over. -/
def fillFrom (params : Fields Value) : Nat → List Char → List Char
  | _, [] => []
  | skip + 1, _ :: rest => fillFrom params skip rest
  | 0, c :: rest =>
    if c = ':' then
      replacement params (nameAt rest) ++ fillFrom params (nameAt rest).length rest
    else c :: fillFrom params 0 rest

def fill (text : String) (params : Fields Value) : String :=
  String.ofList (fillFrom params 0 text.toList)

end DocMapper.Inline
