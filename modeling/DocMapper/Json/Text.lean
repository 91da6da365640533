import DocMapper.Json
import DocMapper.Number.Text
/-!
The compact text of a data tree. Strings escape the quote, the backslash and the characters below
the blank; everything else stands for itself.
-/

namespace DocMapper.Json

def hexDigit (n : Nat) : Char :=
  if n < 10 then Char.ofNat (48 + n) else Char.ofNat (87 + n)

def escapedChar (c : Char) : List Char :=
  if c = '"' then ['\\', '"']
  else if c = '\\' then ['\\', '\\']
  else if c = '\n' then ['\\', 'n']
  else if c = '\r' then ['\\', 'r']
  else if c = '\t' then ['\\', 't']
  else if c.toNat = 8 then ['\\', 'b']
  else if c.toNat = 12 then ['\\', 'f']
  else if c.toNat < 32 then
    ['\\', 'u', '0', '0', hexDigit (c.toNat / 16), hexDigit (c.toNat % 16)]
  else [c]

def stringChars (s : String) : List Char :=
  '"' :: (s.toList.flatMap escapedChar ++ ['"'])

mutual

def chars : Json → List Char
  | .null => "null".toList
  | .bool true => "true".toList
  | .bool false => "false".toList
  | .int n => (toString n).toList
  | .float d => (d.dataText?.getD "null").toList
  | .str s => stringChars s
  | .arr items => '[' :: (itemChars items ++ [']'])
  | .obj entries => '{' :: (entryChars entries ++ ['}'])

def itemChars : List Json → List Char
  | [] => []
  | [item] => chars item
  | item :: rest => chars item ++ ',' :: itemChars rest

def entryChars : List (String × Json) → List Char
  | [] => []
  | [(key, item)] => stringChars key ++ ':' :: chars item
  | (key, item) :: rest => stringChars key ++ ':' :: (chars item ++ ',' :: entryChars rest)

end

def text (json : Json) : String :=
  String.ofList json.chars

end DocMapper.Json
