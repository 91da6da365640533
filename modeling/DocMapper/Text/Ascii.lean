/-!
Letters, digits and letter case of the ASCII range; every other character is left alone.
-/

namespace DocMapper.Text

def isAsciiLetter (c : Char) : Bool :=
  ('a' ≤ c && c ≤ 'z') || ('A' ≤ c && c ≤ 'Z')

def isAsciiDigit (c : Char) : Bool :=
  '0' ≤ c && c ≤ '9'

/-- A letter, a digit or an underscore: what may follow the first letter of a parameter name. -/
def isNameChar (c : Char) : Bool :=
  isAsciiLetter c || isAsciiDigit c || c == '_'

def lowerAscii (s : String) : String :=
  String.ofList (s.toList.map Char.toLower)

def upperAscii (s : String) : String :=
  String.ofList (s.toList.map Char.toUpper)

def digitValue (c : Char) : Nat :=
  c.toNat - '0'.toNat

/-- The number written by a run of digits, most significant first. -/
def natOfDigits (cs : List Char) : Nat :=
  cs.foldl (fun n c => n * 10 + digitValue c) 0

/-- One or more digits and nothing else. -/
def isDigits (cs : List Char) : Bool :=
  !cs.isEmpty && cs.all isAsciiDigit

end DocMapper.Text
