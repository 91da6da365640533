import DocMapper.Number.Double
/-!
The shortest decimal that reads back as a given double. A finite double stands for every number
between its two midpoints with the neighbouring doubles, the midpoints included when its
significand is even. On the decimal grids with one, two, … seventeen digits the two points next to
the double are tried, and the first grid with a point inside wins.
-/

namespace DocMapper

/-- `digits · 10 ^ exponent`. -/
structure Decimal where
  digits : Nat
  exponent : Int
  deriving DecidableEq

/-- Which of two equally near decimals is taken. -/
inductive TieRule where
  | up
  | toEven
  deriving DecidableEq

namespace Double

/-- The numbers that round to a double, as `low`, `value` and `high` over one denominator. -/
structure Interval where
  low : Nat
  value : Nat
  high : Nat
  den : Nat
  closed : Bool

/-- The interval of a finite double. Below a power of two the neighbour is half as far away. -/
def interval (d : Double) : Interval :=
  let m := d.significand
  let narrow := m = Nat.pow 2 52 ∧ 1 < d.exponentField
  let (unit, den) := scaled 1 1 (d.exponent - 2)
  { low := (4 * m - if narrow then 1 else 2) * unit
    value := 4 * m * unit
    high := (4 * m + 2) * unit
    den := den
    closed := m % 2 = 0 }

/-- Whether `candidate · 10 ^ exponent` lies in the interval. -/
def Interval.holds (i : Interval) (candidate : Nat) (exponent : Int) : Bool :=
  let point := candidate * Nat.pow 10 exponent.toNat * i.den
  let scale := Nat.pow 10 (-exponent).toNat
  if i.closed then i.low * scale ≤ point && point ≤ i.high * scale
  else i.low * scale < point && point < i.high * scale

/-- The greatest `k` with `10 ^ k ≤ num / den`. The binary logarithms leave three candidates. -/
def decimalExponent (num den : Nat) : Int :=
  let reaches (k : Int) : Bool := den * Nat.pow 10 k.toNat ≤ num * Nat.pow 10 (-k).toNat
  let guess := (((num.log2 : Int) - den.log2 - 1) * 30103).fdiv 100000
  if reaches (guess + 2) then guess + 2
  else if reaches (guess + 1) then guess + 1
  else if reaches guess then guess
  else guess - 1

/-- The point of one grid that stands for the double, if a point of that grid does. -/
def onGrid? (tie : TieRule) (i : Interval) (exponent : Int) : Option Nat :=
  let num := i.value * Nat.pow 10 (-exponent).toNat
  let den := i.den * Nat.pow 10 exponent.toNat
  let below := num / den
  let above := below + 1
  match i.holds below exponent, i.holds above exponent with
  | true, false => some below
  | false, true => some above
  | false, false => none
  | true, true =>
    let twice := 2 * (num % den)
    if twice < den then some below
    else if den < twice then some above
    else
      match tie with
      | .up => some above
      | .toEven => some (if below % 2 = 0 then below else above)

/-- Tries the grids from `exponent` downwards, `count` of them. -/
def firstOnGrid (tie : TieRule) (i : Interval) : Nat → Int → Decimal
  | 0, exponent => ⟨i.value / i.den, exponent⟩
  | count + 1, exponent =>
    match onGrid? tie i exponent with
    | some digits => ⟨digits, exponent⟩
    | none => firstOnGrid tie i count (exponent - 1)

/-- Moves the zeros at the end of the digits into the exponent; `fuel` bounds their number. -/
def dropZeros : Nat → Decimal → Decimal
  | 0, d => d
  | fuel + 1, d =>
    if d.digits ≠ 0 ∧ d.digits % 10 = 0 then dropZeros fuel ⟨d.digits / 10, d.exponent + 1⟩ else d

/-- The shortest decimal for a finite double other than zero, and the nearest of the shortest. -/
def shortest (tie : TieRule) (d : Double) : Decimal :=
  let i := d.interval
  dropZeros 20 (firstOnGrid tie i 18 (decimalExponent i.value i.den))

end Double

end DocMapper
