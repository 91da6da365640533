/-!
Strings in data text. A string is first taken as a list of pieces, characters and escaped sixteen
bits; it is a text if the surrogate halves among the latter stand in pairs.
-/

namespace DocMapper.Json

def hexValue? (c : Char) : Option Nat :=
  if '0' ≤ c ∧ c ≤ '9' then some (c.toNat - 48)
  else if 'a' ≤ c ∧ c ≤ 'f' then some (c.toNat - 87)
  else if 'A' ≤ c ∧ c ≤ 'F' then some (c.toNat - 55)
  else none

def hexQuad? (a b c d : Char) : Option Nat := do
  let a ← hexValue? a
  let b ← hexValue? b
  let c ← hexValue? c
  let d ← hexValue? d
  pure (((a * 16 + b) * 16 + c) * 16 + d)

def simpleEscape? (c : Char) : Option Char :=
  if c = '"' ∨ c = '\\' ∨ c = '/' then some c
  else if c = 'n' then some '\n'
  else if c = 'r' then some '\r'
  else if c = 't' then some '\t'
  else if c = 'b' then some (Char.ofNat 8)
  else if c = 'f' then some (Char.ofNat 12)
  else none

inductive Piece where
  | char (c : Char)
  /-- Four hexadecimal digits. -/
  | code (n : Nat)

/-- Takes the pieces of a string up to its closing quote. -/
def takePieces? : List Char → Option (List Piece × List Char)
  | [] => none
  | '"' :: rest => some ([], rest)
  | '\\' :: 'u' :: a :: b :: c :: d :: rest =>
    match hexQuad? a b c d with
    | none => none
    | some n => (takePieces? rest).map fun (pieces, rest) => (.code n :: pieces, rest)
  | '\\' :: e :: rest =>
    match simpleEscape? e with
    | none => none
    | some c => (takePieces? rest).map fun (pieces, rest) => (.char c :: pieces, rest)
  | c :: rest =>
    if c.toNat < 32 then none
    else (takePieces? rest).map fun (pieces, rest) => (.char c :: pieces, rest)

def isHighHalf (n : Nat) : Bool :=
  0xD800 ≤ n && n < 0xDC00

def isLowHalf (n : Nat) : Bool :=
  0xDC00 ≤ n && n < 0xE000

/-- The characters of a string; a surrogate half alone is none. -/
def pieceChars? : List Piece → Option (List Char)
  | [] => some []
  | .char c :: rest => (pieceChars? rest).map (c :: ·)
  | .code n :: rest =>
    if isHighHalf n then
      match rest with
      | .code low :: rest =>
        if isLowHalf low then
          let c := Char.ofNat (0x10000 + (n - 0xD800) * 0x400 + (low - 0xDC00))
          (pieceChars? rest).map (c :: ·)
        else none
      | _ => none
    else if isLowHalf n then none
    else (pieceChars? rest).map (Char.ofNat n :: ·)

def pieceText? (pieces : List Piece) : Option String :=
  (pieceChars? pieces).map String.ofList

end DocMapper.Json
