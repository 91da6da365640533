/-!
Blank characters and what is done with them: trimming both ends and cutting at the first one.
-/

namespace DocMapper.Text

/-- The twenty-five characters with the Unicode property `White_Space`. -/
def isBlank (c : Char) : Bool :=
  let n := c.toNat
  (9 ≤ n && n ≤ 13) || n = 0x20 || n = 0x85 || n = 0xA0 || n = 0x1680 ||
    (0x2000 ≤ n && n ≤ 0x200A) || n = 0x2028 || n = 0x2029 || n = 0x202F || n = 0x205F ||
    n = 0x3000

def trimChars (cs : List Char) : List Char :=
  ((cs.dropWhile isBlank).reverse.dropWhile isBlank).reverse

def trim (s : String) : String :=
  String.ofList (trimChars s.toList)

/-- What stands before the first blank, and what stands after it if there is one. -/
def cutAtBlank : List Char → List Char × Option (List Char)
  | [] => ([], none)
  | c :: rest =>
    if isBlank c then ([], some rest)
    else
      let (before, after) := cutAtBlank rest
      (c :: before, after)

/-- The runs of other characters between blanks; `word` is the run being read, last character
first. -/
def wordsFrom (word : List Char) : List Char → List (List Char)
  | [] => if word.isEmpty then [] else [word.reverse]
  | c :: rest =>
    if isBlank c then
      if word.isEmpty then wordsFrom [] rest else word.reverse :: wordsFrom [] rest
    else wordsFrom (c :: word) rest

def words (s : String) : List String :=
  (wordsFrom [] s.toList).map String.ofList

end DocMapper.Text
