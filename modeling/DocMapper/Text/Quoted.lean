/-!
Double-quoted literals: a quote and a backslash are written with a backslash before them, a line
feed as `\n`, everything else as it is.
-/

namespace DocMapper.Text

def quotedChar (c : Char) : List Char :=
  if c = '"' then ['\\', '"']
  else if c = '\\' then ['\\', '\\']
  else if c = '\n' then ['\\', 'n']
  else [c]

def quotedChars (cs : List Char) : List Char :=
  '"' :: (cs.flatMap quotedChar ++ ['"'])

def quoted (s : String) : String :=
  String.ofList (quotedChars s.toList)

/-- Single-quoted literals: a single quote and a backslash are written with a backslash before
them. -/
def singleQuotedChar (c : Char) : List Char :=
  if c = '\'' ∨ c = '\\' then ['\\', c] else [c]

def singleQuoted (s : String) : String :=
  String.ofList ('\'' :: (s.toList.flatMap singleQuotedChar ++ ['\'']))

end DocMapper.Text
