/-!
Replacing every occurrence of a text, found from left to right and without overlap.
-/

namespace DocMapper.Text

/-- The rest of a text after a given beginning. -/
def dropStart? : List Char → List Char → Option (List Char)
  | [], cs => some cs
  | _ :: _, [] => none
  | p :: ps, c :: cs => if p = c then dropStart? ps cs else none

/-- Replaces the non-empty text `p :: ps`; `skip` characters of an occurrence are still to be
passed over. -/
def replaceFrom (p : Char) (ps new : List Char) : Nat → List Char → List Char
  | _, [] => []
  | skip + 1, _ :: rest => replaceFrom p ps new skip rest
  | 0, c :: rest =>
    if (dropStart? (p :: ps) (c :: rest)).isSome then
      new ++ replaceFrom p ps new ps.length rest
    else c :: replaceFrom p ps new 0 rest

/-- Replaces every occurrence of `old` in a text. The empty text occurs before every character and
at the end. -/
def replaceChars (old new : List Char) (cs : List Char) : List Char :=
  match old with
  | [] => new ++ cs.flatMap fun c => c :: new
  | p :: ps => replaceFrom p ps new 0 cs

def replace (s old new : String) : String :=
  String.ofList (replaceChars old.toList new.toList s.toList)

end DocMapper.Text
