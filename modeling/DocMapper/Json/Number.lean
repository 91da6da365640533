import DocMapper.Json
import DocMapper.Number.Reading
/-!
Numbers in data text. An integer that fits is kept as it is. Any other number is read in two
steps: the leading digits that fit in sixty-four bits are rounded to a double, and that is
multiplied or divided by a power of ten and rounded again.
-/

namespace DocMapper

namespace Double

def tenTo (k : Nat) : Double :=
  ofDecimal false 1 k

def mul (a b : Double) : Double :=
  let (n, d) := a.ratio
  let (n', d') := b.ratio
  ofRatio (a.negative != b.negative) (n * n') (d * d')

def div (a b : Double) : Double :=
  let (n, d) := a.ratio
  let (n', d') := b.ratio
  ofRatio (a.negative != b.negative) (n * d') (d * n')

/-- Scales by a power of ten, in steps of at most `10 ^ 308`; a result out of range is none. Four
steps bring every start below `2 ^ 64` down to zero. -/
def scaleByTen : Nat → Double → Int → Option Double
  | 0, start, _ => some start
  | steps + 1, start, exponent =>
    if start.significand = 0 then some start
    else if 308 < exponent then none
    else if 0 ≤ exponent then
      let product := start.mul (tenTo exponent.toNat)
      if product.isFinite then some product else none
    else if -308 ≤ exponent then some (start.div (tenTo (-exponent).toNat))
    else scaleByTen steps (start.div (tenTo 308)) (exponent + 308)

end Double

namespace Json

/-- Leading digits below `2 ^ 64`, and the power of ten that goes with them. -/
structure Scaled where
  digits : Nat
  exponent : Int

def Scaled.push? (n : Scaled) (c : Char) : Option Nat :=
  let digits := n.digits * 10 + Text.digitValue c
  if digits < UInt64.size then some digits else none

/-- Takes in the digits before the point; from the first that does not fit they only count. -/
def Scaled.takeWhole (n : Scaled) : List Char → Scaled
  | [] => n
  | c :: rest =>
    match n.push? c with
    | some digits => takeWhole ⟨digits, 0⟩ rest
    | none => ⟨n.digits, (rest.length + 1 : Nat)⟩

/-- Takes in the digits after the point, up to the first that does not fit. -/
def Scaled.takePlaces (n : Scaled) : List Char → Scaled
  | [] => n
  | c :: rest =>
    match n.push? c with
    | some digits => takePlaces ⟨digits, n.exponent - 1⟩ rest
    | none => n

def Scaled.toDouble? (neg : Bool) (n : Scaled) : Option Double :=
  (Double.scaleByTen 4 (Double.ofNat n.digits) n.exponent).map fun d =>
    if neg then Double.ofMagnitude true d.bits.toNat else d

/-- Adds a written exponent. Beyond 31 bits it makes zero of a small number, and a large one other
than zero is refused. -/
def Scaled.addExponent? (n : Scaled) (neg : Bool) (digits : List Char) : Option Scaled :=
  let exponent := Text.natOfDigits digits
  if exponent ≤ Int32.maxValue.toInt then
    some ⟨n.digits, n.exponent + if neg then -(exponent : Int) else exponent⟩
  else if neg ∨ n.digits = 0 then some ⟨0, 0⟩
  else none

/-- A number as it is written: the digits before the point, those after it, and the sign and digits
of the exponent. -/
structure Numeral where
  neg : Bool
  whole : List Char
  places? : Option (List Char)
  exponent? : Option (Bool × List Char)

namespace Numeral

/-- A point and at least one digit, or nothing. -/
def takePlaces? : List Char → Option (Option (List Char) × List Char)
  | '.' :: rest =>
    let places := rest.takeWhile Text.isAsciiDigit
    if places.isEmpty then none else some (some places, rest.dropWhile Text.isAsciiDigit)
  | cs => some (none, cs)

/-- An exponent mark, an optional sign and at least one digit, or nothing. -/
def takeExponent? : List Char → Option (Option (Bool × List Char) × List Char)
  | [] => some (none, [])
  | c :: rest =>
    if c = 'e' ∨ c = 'E' then
      let (neg, body) := Number.takeSign rest
      let digits := body.takeWhile Text.isAsciiDigit
      if digits.isEmpty then none
      else some (some (neg, digits), body.dropWhile Text.isAsciiDigit)
    else some (none, c :: rest)

/-- Takes a number from the start of a text. A zero may not stand before other digits. -/
def take? (cs : List Char) : Option (Numeral × List Char) := do
  let (neg, body) := match cs with
    | '-' :: rest => (true, rest)
    | _ => (false, cs)
  let whole := body.takeWhile Text.isAsciiDigit
  if whole.isEmpty || (whole.head? = some '0' && 1 < whole.length) then none
  else
    let (places?, rest) ← takePlaces? (body.dropWhile Text.isAsciiDigit)
    let (exponent?, rest) ← takeExponent? rest
    pure (⟨neg, whole, places?, exponent?⟩, rest)

/-- The integer that is written, if it is written as one and stays one. -/
def int? (n : Numeral) : Option Int :=
  if n.places?.isSome || n.exponent?.isSome then none
  else
    let digits := Text.natOfDigits n.whole
    if n.neg then if 0 < digits ∧ Number.inInt64 (-digits) then some (-digits) else none
    else if digits < UInt64.size then some digits else none

def scaled? (n : Numeral) : Option Scaled :=
  let start := (Scaled.takeWhole ⟨0, 0⟩ n.whole).takePlaces (n.places?.getD [])
  match n.exponent? with
  | some (neg, digits) => start.addExponent? neg digits
  | none => some start

/-- The number that is written, unless it is out of range. -/
def json? (n : Numeral) : Option Json :=
  match n.int? with
  | some i => some (.int i)
  | none => (n.scaled?.bind (·.toDouble? n.neg)).map .float

end Numeral

end Json

end DocMapper
