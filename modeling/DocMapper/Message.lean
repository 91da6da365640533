import DocMapper.Text.Replace
/-!
Wording of validation failures. A template names the path and the value by placeholders; a bound
is filled in afterwards, wherever its placeholder stands by then.
-/

namespace DocMapper.Message

def pathMark : String := "\x7bPATH\x7d"

def valueMark : String := "\x7bVALUE\x7d"

def minMark : String := "\x7bMIN\x7d"

def maxMark : String := "\x7bMAX\x7d"

/-- For validators without a wording of their own. -/
def custom : String :=
  "Validator failed for path `\x7bPATH\x7d` with value `\x7bVALUE\x7d`"

def required : String :=
  "Path `\x7bPATH\x7d` is required."

def notNull : String :=
  "Path `\x7bPATH\x7d` should be set."

def numberMin : String :=
  "Path `\x7bPATH\x7d` (\x7bVALUE\x7d) is less than minimum allowed value (\x7bMIN\x7d)."

def numberMax : String :=
  "Path `\x7bPATH\x7d` (\x7bVALUE\x7d) is more than maximum allowed value (\x7bMAX\x7d)."

def stringEnum : String :=
  "`\x7bVALUE\x7d` is not a valid enum value for path `\x7bPATH\x7d`."

def stringMin : String :=
  "Path `\x7bPATH\x7d` (\x7bVALUE\x7d) length is less than minimum allowed value (\x7bMIN\x7d)."

def stringMax : String :=
  "Path `\x7bPATH\x7d` (\x7bVALUE\x7d) length is more than maximum allowed value (\x7bMAX\x7d)."

/-- The path is filled in first, so a placeholder inside it is filled in too. -/
def fill (template path value : String) : String :=
  Text.replace (Text.replace template pathMark path) valueMark value

end DocMapper.Message
