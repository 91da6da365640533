import DocMapper.Number.Text
import DocMapper.Text.Quoted
import DocMapper.Value
/-!
The literal that stands for a value inside a statement: strings, dates and map keys in double
quotes, links bare, lists in brackets and maps in braces.
-/

namespace DocMapper.Value

mutual

def literalChars : Value → List Char
  | .null => "null".toList
  | .bool true => "true".toList
  | .bool false => "false".toList
  | .int n => RecordId.intChars n.toInt
  | .float d => d.plain.toList
  | .string s => Text.quotedChars s.toList
  | .dateTime t => Text.quotedChars t.chars
  | .link id => id.chars
  | .list items => '[' :: (itemChars items ++ [']'])
  | .map entries => '{' :: (entryChars entries ++ ['}'])

def itemChars : List Value → List Char
  | [] => []
  | [item] => literalChars item
  | item :: rest => literalChars item ++ ',' :: ' ' :: itemChars rest

def entryChars : List (String × Value) → List Char
  | [] => []
  | [(key, item)] => Text.quotedChars key.toList ++ ':' :: ' ' :: literalChars item
  | (key, item) :: rest =>
    Text.quotedChars key.toList ++
      ':' :: ' ' :: (literalChars item ++ ',' :: ' ' :: entryChars rest)

end

def literal (v : Value) : String :=
  String.ofList v.literalChars

/-- The text of a value in messages: a string stands for itself, without quotes. -/
def plainText : Value → String
  | .string s => s
  | other => other.literal

end DocMapper.Value
