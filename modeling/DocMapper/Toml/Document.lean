import DocMapper.Toml.Scalar
import DocMapper.Toml.Table
/-!
Reading TOML: keys, values and lines, and the document they make up.
-/

namespace DocMapper.Toml

/-! ### Keys -/

def isKeyChar (c : Char) : Bool :=
  Text.isAsciiLetter c || Text.isAsciiDigit c || c = '_' || c = '-'

/-- One name of a key, bare or quoted. -/
def name? (cs : List Char) : Option (String × List Char) :=
  match lineString? cs with
  | some found => some found
  | none =>
    let (bare, rest) := cs.span isKeyChar
    if bare.isEmpty then none else some (String.ofList bare, rest)

/-- The number of names a key may have, and of arrays and inline tables that may be open at once. -/
def maxDepth : Nat :=
  79

/-- At most so many names, with dots between them. -/
def names? : Nat → List Char → Option (List String × List Char)
  | 0, _ => none
  | bound + 1, cs => do
    let (name, rest) ← name? (skipSpace cs)
    match skipSpace rest with
    | '.' :: rest => (names? bound rest).map fun (names, rest) => (name :: names, rest)
    | rest => some ([name], rest)

def key? (cs : List Char) : Option (List String × List Char) :=
  names? maxDepth cs

/-! ### Values -/

/-- A comment up to the end of its line, if there is one. -/
def skipComment? : List Char → Option (List Char)
  | '#' :: rest =>
    let rest := rest.dropWhile isLineChar
    if rest.isEmpty || (lineEnd? rest).isSome then some rest else none
  | cs => some cs

/-- Blanks, line ends and comments, as they may stand inside an array. -/
def skipFill? : Nat → List Char → Option (List Char)
  | 0, _ => none
  | fuel + 1, cs => do
    let rest ← skipComment? (skipSpace cs)
    match lineEnd? rest with
    | some rest => skipFill? fuel rest
    | none => some rest

mutual

/-- Reads a value in which `depth` containers may be opened inside one another; `fuel` bounds the
steps. -/
def value? : Nat → Nat → List Char → Option (Json × List Char)
  | 0, _, _ => none
  | fuel + 1, depth, cs =>
    match cs with
    | '[' :: rest =>
      if depth = 0 then none
      else (items? fuel (depth - 1) rest).map fun (items, rest) => (.arr items, rest)
    | '{' :: rest =>
      if depth = 0 then none
      else do
        let (entries, rest) ← pairs? fuel (depth - 1) true [] rest
        pure (.obj (entriesToJson entries), rest)
    | '"' :: _ | '\'' :: _ => (string? cs).map fun (s, rest) => (.str s, rest)
    | _ =>
      let (text, rest) := takeBare cs
      (bare? text).map fun json => (json, rest)

/-- The items of an array up to its bracket; a comma may follow the last. -/
def items? : Nat → Nat → List Char → Option (List Json × List Char)
  | 0, _, _ => none
  | fuel + 1, depth, cs => do
    match ← skipFill? (cs.length + 1) cs with
    | ']' :: rest => some ([], rest)
    | cs => do
      let (item, rest) ← value? fuel depth cs
      match ← skipFill? (rest.length + 1) rest with
      | ',' :: rest => (items? fuel depth rest).map fun (items, rest) => (item :: items, rest)
      | ']' :: rest => some ([item], rest)
      | _ => none

/-- The entries of an inline table up to its brace, on one line and without a comma at the end. -/
def pairs? : Nat → Nat → Bool → List (String × Node) → List Char →
    Option (List (String × Node) × List Char)
  | 0, _, _, _, _ => none
  | fuel + 1, depth, isFirst, entries, cs =>
    match skipSpace cs with
    | '}' :: rest => if isFirst then some (entries, rest) else none
    | cs => do
      let (names, rest) ← key? cs
      match rest with
      | '=' :: rest =>
        let (json, rest) ← value? fuel depth (skipSpace rest)
        let entries ← addPair? names json ⟨false, entries⟩
        match skipSpace rest with
        | ',' :: rest => pairs? fuel depth false entries rest
        | '}' :: rest => some (entries, rest)
        | _ => none
      | _ => none

end

/-! ### Documents -/

/-- A document as far as it is read: its tables, and the header of the open one. -/
structure State where
  entries : List (String × Node)
  header : List String

def State.root (s : State) : Open :=
  ⟨false, s.entries⟩

def State.addPair? (s : State) (names : List String) (json : Json) : Option State := do
  let entries ← changeAt? false (Toml.addPair? names json) s.header s.root
  pure { s with entries := entries }

/-- Reads one line, up to its comment or end. -/
def State.line? (s : State) (cs : List Char) : Option (State × List Char) :=
  match skipSpace cs with
  | '[' :: '[' :: rest => do
    let (names, rest) ← key? rest
    match rest with
    | ']' :: ']' :: rest =>
      let entries ← openItem? names s.root
      pure (⟨entries, names⟩, rest)
    | _ => none
  | '[' :: rest => do
    let (names, rest) ← key? rest
    match rest with
    | ']' :: rest =>
      let entries ← openTable? names s.root
      pure (⟨entries, names⟩, rest)
    | _ => none
  | cs =>
    if cs.isEmpty || cs.head? = some '#' || (lineEnd? cs).isSome then some (s, cs)
    else do
      let (names, rest) ← key? cs
      match rest with
      | '=' :: rest =>
        let (json, rest) ← value? (rest.length + 1) maxDepth (skipSpace rest)
        let s ← s.addPair? names json
        pure (s, rest)
      | _ => none

/-- Reads lines to the end of the text; `fuel` bounds their number. -/
def State.lines? : Nat → State → List Char → Option State
  | 0, _, _ => none
  | fuel + 1, s, cs => do
    let (s, rest) ← s.line? cs
    let rest ← skipComment? (skipSpace rest)
    if rest.isEmpty then pure s
    else
      let rest ← lineEnd? rest
      State.lines? fuel s rest

def parse? (text : String) : Option Json := do
  let cs := text.toList
  let cs := if cs.head? = some (Char.ofNat 0xFEFF) then cs.tail else cs
  let s ← State.lines? (cs.length + 1) ⟨[], []⟩ cs
  pure (.obj (entriesToJson s.entries))

end DocMapper.Toml
