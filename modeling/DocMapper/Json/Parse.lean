import DocMapper.Json.Draft
import DocMapper.Json.Escape
import DocMapper.Json.Number
/-!
Reading data text, token by token, with the containers still open on a stack. Objects keep their
entries in written order, repeated names included.
-/

namespace DocMapper.Json

def isSpace (c : Char) : Bool :=
  c = ' ' || c = '\n' || c = '\t' || c = '\r'

def skipSpace (cs : List Char) : List Char :=
  cs.dropWhile isSpace

/-! ### Tokens -/

inductive Token where
  | openArr
  | closeArr
  | openObj
  | closeObj
  | comma
  | colon
  | str (text? : Option String)
  | leaf (json? : Option Json)

/-- Passes over a given word. -/
def word? : List Char → List Char → Option (List Char)
  | [], cs => some cs
  | w :: ws, c :: cs => if w = c then word? ws cs else none
  | _ :: _, [] => none

def takeWord? (word : String) (json : Json) (cs : List Char) : Option (Token × List Char) :=
  (word? word.toList cs).map fun rest => (.leaf (some json), rest)

def takeToken? : List Char → Option (Token × List Char)
  | '[' :: rest => some (.openArr, rest)
  | ']' :: rest => some (.closeArr, rest)
  | '{' :: rest => some (.openObj, rest)
  | '}' :: rest => some (.closeObj, rest)
  | ',' :: rest => some (.comma, rest)
  | ':' :: rest => some (.colon, rest)
  | '"' :: rest => (takePieces? rest).map fun (pieces, rest) => (.str (pieceText? pieces), rest)
  | 'n' :: rest => takeWord? "ull" .null rest
  | 't' :: rest => takeWord? "rue" (.bool true) rest
  | 'f' :: rest => takeWord? "alse" (.bool false) rest
  | cs => (Numeral.take? cs).map fun (n, rest) => (.leaf n.json?, rest)

/-! ### Open containers -/

/-- A container that is still open, with what it holds so far, last first. -/
inductive Frame where
  | arr (items : List Draft)
  | obj (entries : List (Option String × Draft))
  /-- An object whose last key still waits for its item. -/
  | entry (entries : List (Option String × Draft)) (key? : Option String)

inductive Next where
  | item
  | itemOrClose
  | key
  | keyOrClose
  | colon
  | commaOrClose
  | nothing

/-- The containers that are open, innermost first, or the whole tree. -/
structure Progress where
  frames : List Frame
  next : Next
  whole? : Option Draft

namespace Progress

def start : Progress :=
  ⟨[], .item, none⟩

def push (p : Progress) (frame : Frame) (next : Next) : Progress :=
  { p with frames := frame :: p.frames, next := next }

/-- Takes a finished tree into the innermost container. -/
def put? (draft : Draft) : List Frame → Option Progress
  | [] => some ⟨[], .nothing, some draft⟩
  | .arr items :: rest => some ⟨.arr (draft :: items) :: rest, .commaOrClose, none⟩
  | .entry entries key? :: rest =>
    some ⟨.obj ((key?, draft) :: entries) :: rest, .commaOrClose, none⟩
  | .obj _ :: _ => none

def item? (p : Progress) : Token → Option Progress
  | .str text? => put? (.leaf (text?.map .str)) p.frames
  | .leaf json? => put? (.leaf json?) p.frames
  | .openArr => some (p.push (.arr []) .itemOrClose)
  | .openObj => some (p.push (.obj []) .keyOrClose)
  | _ => none

/-- Closes the innermost container. -/
def close? (p : Progress) : Token → Option Progress
  | .closeArr =>
    match p.frames with
    | .arr items :: rest => put? (.arr items.reverse) rest
    | _ => none
  | .closeObj =>
    match p.frames with
    | .obj entries :: rest => put? (.obj entries.reverse) rest
    | _ => none
  | _ => none

def key? (p : Progress) : Token → Option Progress
  | .str text? =>
    match p.frames with
    | .obj entries :: rest => some ⟨.entry entries text? :: rest, .colon, none⟩
    | _ => none
  | _ => none

def comma? (p : Progress) : Option Progress :=
  match p.frames with
  | .arr _ :: _ => some { p with next := .item }
  | .obj _ :: _ => some { p with next := .key }
  | _ => none

def step? (p : Progress) (token : Token) : Option Progress :=
  match p.next, token with
  | .item, token => p.item? token
  | .itemOrClose, .closeArr => p.close? .closeArr
  | .itemOrClose, token => p.item? token
  | .key, token => p.key? token
  | .keyOrClose, .closeObj => p.close? .closeObj
  | .keyOrClose, token => p.key? token
  | .colon, .colon => some { p with next := .item }
  | .commaOrClose, .comma => p.comma?
  | .commaOrClose, token => p.close? token
  | _, _ => none

/-- Reads a text to its end; `fuel` bounds the number of tokens. -/
def run? : Nat → Progress → List Char → Option Draft
  | 0, _, _ => none
  | fuel + 1, p, cs =>
    match skipSpace cs with
    | [] => p.whole?
    | cs =>
      match takeToken? cs with
      | none => none
      | some (token, rest) =>
        match p.step? token with
        | none => none
        | some p => run? fuel p rest

end Progress

/-- Reads a whole text; nothing but blanks may stand around the tree. -/
def Draft.parse? (s : String) : Option Draft :=
  let cs := s.toList
  Progress.start.run? (cs.length + 1) cs

/-- The number of containers that may be open at once. -/
def maxDepth : Nat :=
  127

/-- Reads a text, all of which has to stand for data. -/
def parse? (s : String) : Option Json :=
  (Draft.parse? s).bind (Draft.finish? maxDepth)

end DocMapper.Json
