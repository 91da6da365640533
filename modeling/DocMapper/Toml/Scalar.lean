import DocMapper.Calendar
import DocMapper.Json
import DocMapper.Json.Escape
import DocMapper.Number.Reading
/-!
Strings, numbers and dates of TOML. Reading takes a value from the start of a text and answers with
the rest.
-/

namespace DocMapper.Toml

def isSpace (c : Char) : Bool :=
  c = ' ' || c = '\t'

def skipSpace (cs : List Char) : List Char :=
  cs.dropWhile isSpace

/-- A character that may stand in a line: a tab, or no control character. -/
def isLineChar (c : Char) : Bool :=
  c = '\t' || (32 ≤ c.toNat && c.toNat ≠ 127)

/-- The characters of a line end, and the rest. -/
def lineEnd? : List Char → Option (List Char)
  | '\n' :: rest => some rest
  | '\r' :: '\n' :: rest => some rest
  | _ => none

/-- Any number of blanks and line ends; `fuel` bounds their number. -/
def skipLines : Nat → List Char → List Char
  | 0, cs => cs
  | fuel + 1, cs =>
    match lineEnd? (skipSpace cs) with
    | some rest => skipLines fuel rest
    | none => skipSpace cs

/-! ### Strings -/

def hexValue? (cs : List Char) : Option Nat :=
  cs.foldl (fun n? c => n?.bind fun n => (Json.hexValue? c).map (n * 16 + ·)) (some 0)

/-- The character with a code, unless it is a surrogate or too large. -/
def charOf? (code : Nat) : Option Char :=
  if code < 0xD800 ∨ (0xE000 ≤ code ∧ code < 0x110000) then some (Char.ofNat code) else none

/-- The character written by `width` hexadecimal digits. -/
def codePoint? (width : Nat) (cs : List Char) : Option Char :=
  if cs.length = width then (hexValue? cs).bind charOf? else none

/-- What a backslash and the characters after it stand for. -/
def escape? : List Char → Option (Char × List Char)
  | 'b' :: rest => some (Char.ofNat 8, rest)
  | 't' :: rest => some ('\t', rest)
  | 'n' :: rest => some ('\n', rest)
  | 'f' :: rest => some (Char.ofNat 12, rest)
  | 'r' :: rest => some ('\r', rest)
  | '"' :: rest => some ('"', rest)
  | '\\' :: rest => some ('\\', rest)
  | 'u' :: rest => (codePoint? 4 (rest.take 4)).map fun c => (c, rest.drop 4)
  | 'U' :: rest => (codePoint? 8 (rest.take 8)).map fun c => (c, rest.drop 8)
  | _ => none

/-- A basic string up to its closing quote; `fuel` bounds the number of its characters. -/
def basicBody? : Nat → List Char → Option (List Char × List Char)
  | 0, _ => none
  | _, [] => none
  | _ + 1, '"' :: rest => some ([], rest)
  | fuel + 1, '\\' :: rest => do
    let (c, rest) ← escape? rest
    let (body, rest) ← basicBody? fuel rest
    pure (c :: body, rest)
  | fuel + 1, c :: rest =>
    if isLineChar c then (basicBody? fuel rest).map fun (body, rest) => (c :: body, rest)
    else none

/-- A literal string up to its closing quote. -/
def literalBody? : List Char → Option (List Char × List Char)
  | [] => none
  | '\'' :: rest => some ([], rest)
  | c :: rest =>
    if isLineChar c then (literalBody? rest).map fun (body, rest) => (c :: body, rest) else none

/-- Closing quotes of a string of several lines: three, and up to two more that belong to it. -/
def closing? (quote : Char) (cs : List Char) : Option (List Char × List Char) :=
  let quotes := (cs.takeWhile (· = quote)).length
  if quotes < 3 then none
  else
    let inside := min (quotes - 3) 2
    some (List.replicate inside quote, cs.drop (inside + 3))

/-- A string of several lines. In a basic one a backslash at the end of a line leaves out the blanks
and line ends after it. -/
def linesBody? (quote : Char) : Nat → List Char → Option (List Char × List Char)
  | 0, _ => none
  | fuel + 1, cs =>
    match closing? quote cs with
    | some found => some found
    | none =>
      match lineEnd? cs with
      | some rest => (linesBody? quote fuel rest).map fun (body, rest) => ('\n' :: body, rest)
      | none =>
        match cs with
        | [] => none
        | c :: rest =>
          if c = '\\' ∧ quote = '"' then
            match lineEnd? (skipSpace rest) with
            | some after => linesBody? quote fuel (skipLines after.length after)
            | none => do
              let (e, rest) ← escape? rest
              let (body, rest) ← linesBody? quote fuel rest
              pure (e :: body, rest)
          else if isLineChar c then
            (linesBody? quote fuel rest).map fun (body, rest) => (c :: body, rest)
          else none

/-- The line end right after the opening quotes does not count. -/
def dropFirstLineEnd (cs : List Char) : List Char :=
  (lineEnd? cs).getD cs

def asText (result : Option (List Char × List Char)) : Option (String × List Char) :=
  result.map fun (body, rest) => (String.ofList body, rest)

/-- A string on one line, as it may also stand in a key. -/
def lineString? : List Char → Option (String × List Char)
  | '"' :: rest => asText (basicBody? (rest.length + 1) rest)
  | '\'' :: rest => asText (literalBody? rest)
  | _ => none

def string? : List Char → Option (String × List Char)
  | '"' :: '"' :: '"' :: rest => asText (linesBody? '"' (rest.length + 1) (dropFirstLineEnd rest))
  | '\'' :: '\'' :: '\'' :: rest =>
    asText (linesBody? '\'' (rest.length + 1) (dropFirstLineEnd rest))
  | cs => lineString? cs

/-! ### Numbers -/

/-- Digits with single underscores between them. -/
def ungroup? (isDigit : Char → Bool) : List Char → Option (List Char)
  | [] => none
  | [c] => if isDigit c then some [c] else none
  | c :: '_' :: rest => if isDigit c then (ungroup? isDigit rest).map (c :: ·) else none
  | c :: rest => if isDigit c then (ungroup? isDigit rest).map (c :: ·) else none

def radixValue? (radix : Nat) (cs : List Char) : Option Nat :=
  cs.foldl (fun n? c => n?.bind fun n => (Json.hexValue? c).bind fun d =>
    if d < radix then some (n * radix + d) else none) (some 0)

/-- A number in another radix, after its mark. -/
def radixInt? (radix : Nat) (cs : List Char) : Option Int := do
  let digits ← ungroup? (fun c => (Json.hexValue? c).any (· < radix)) cs
  let n ← radixValue? radix digits
  if Number.inInt64 n then pure n else none

/-- Decimal digits without a zero in front. -/
def decimalDigits? (cs : List Char) : Option (List Char) := do
  let digits ← ungroup? Text.isAsciiDigit cs
  if 1 < digits.length && digits.head? = some '0' then none else some digits

def decimalInt? (cs : List Char) : Option Int := do
  let (neg, body) := Number.takeSign cs
  let digits ← decimalDigits? body
  let n := Text.natOfDigits digits
  let n : Int := if neg then -(n : Int) else n
  if Number.inInt64 n then pure n else none

def int? : List Char → Option Int
  | '0' :: 'x' :: rest => radixInt? 16 rest
  | '0' :: 'o' :: rest => radixInt? 8 rest
  | '0' :: 'b' :: rest => radixInt? 2 rest
  | cs => decimalInt? cs

def isExponentMark (c : Char) : Bool :=
  c = 'e' || c = 'E'

/-- Whether a text is an exponent after its mark. -/
def isExponent (cs : List Char) : Bool :=
  (ungroup? Text.isAsciiDigit (Number.takeSign cs).2).isSome

/-- Whether a text is a decimal number with a point or an exponent, after its sign. -/
def isDecimal (body : List Char) : Bool :=
  let (mantissa, exponent) := body.span fun c => !isExponentMark c
  let (whole, places) := mantissa.span (· ≠ '.')
  (decimalDigits? whole).isSome &&
    (places.isEmpty || (ungroup? Text.isAsciiDigit places.tail).isSome) &&
    (exponent.isEmpty || isExponent exponent.tail) && !(places.isEmpty && exponent.isEmpty)

/-- A number with a point or an exponent, or one of the words for those that are not finite. A
number that is too large is none, but one that is too small is an infinity. -/
def float? (cs : List Char) : Option Double :=
  let body := (Number.takeSign cs).2
  let word := String.ofList body
  if word = "inf" ∨ word = "nan" then Number.readDouble? cs
  else if isDecimal body then
    (Number.readDouble? (cs.filter (· ≠ '_'))).filter (· ≠ Double.infinity false)
  else none

/-! ### Dates -/

/-- Whether two characters are a number of two digits, at most `max`. -/
def isPart (max : Nat) (tens ones : Char) : Bool :=
  Text.isDigits [tens, ones] && Text.natOfDigits [tens, ones] ≤ max

/-- A time of day, with a fraction of a second or without. Any minute may have a leap second. -/
def isClock : List Char → Bool
  | h :: h' :: ':' :: m :: m' :: ':' :: s :: s' :: rest =>
    isPart 23 h h' && isPart 59 m m' && isPart 60 s s' &&
      match rest with
      | [] => true
      | '.' :: fraction => Text.isDigits fraction
      | _ => false
  | _ => false

/-- A time with a zone after it: `Z`, or an offset in hours and minutes. -/
def isZonedClock (cs : List Char) : Bool :=
  match cs.reverse with
  | 'Z' :: rest | 'z' :: rest => isClock rest.reverse
  | m' :: m :: ':' :: h' :: h :: sign :: rest =>
    (sign = '+' || sign = '-') && isPart 23 h h' && isPart 59 m m' && isClock rest.reverse
  | _ => false

def isDay (cs : List Char) : Bool :=
  cs.length = 10 && (DateTime.ofChars? cs).isSome

/-- Whether a text is a date, a time or both. -/
def isDateTime (cs : List Char) : Bool :=
  isDay cs || isClock cs ||
    (isDay (cs.take 10) && (cs[10]?.any fun c => c = 'T' || c = 't' || c = ' ') &&
      (isClock (cs.drop 11) || isZonedClock (cs.drop 11)))

/-- The characters of numbers, words and dates. -/
def isBareChar (c : Char) : Bool :=
  Text.isAsciiLetter c || Text.isAsciiDigit c || c = '_' || c = '-' || c = '+' || c = '.' || c = ':'

/-- The longest run of such characters, over the blank between a date and its time. -/
def takeBare (cs : List Char) : List Char × List Char :=
  let (first, rest) := cs.span isBareChar
  match rest with
  | ' ' :: a :: b :: ':' :: _ =>
    if isDay first && Text.isAsciiDigit a && Text.isAsciiDigit b then
      let (second, rest) := rest.tail.span isBareChar
      (first ++ ' ' :: second, rest)
    else (first, rest)
  | _ => (first, rest)

/-- A value without quotes and brackets. Dates keep no more than that they are no scalars. -/
def bare? (cs : List Char) : Option Json :=
  if cs = "true".toList then some (.bool true)
  else if cs = "false".toList then some (.bool false)
  else
    match int? cs with
    | some n => some (.int n)
    | none =>
      match float? cs with
      | some d => some (.float d)
      | none => if isDateTime cs then some (.obj []) else none

end DocMapper.Toml
