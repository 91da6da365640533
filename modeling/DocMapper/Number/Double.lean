/-!
Double-precision numbers held as their sixty-four bits, so that equality, order and rounding are
exact arithmetic on natural numbers.
-/

namespace DocMapper

/-- A double-precision number. Two numbers are the same value of this type when their bits agree;
numeric equality is `Double.eqv`. -/
structure Double where
  bits : UInt64
  deriving DecidableEq

namespace Double

def negative (d : Double) : Bool :=
  d.bits.toNat / Nat.pow 2 63 = 1

def exponentField (d : Double) : Nat :=
  d.bits.toNat / Nat.pow 2 52 % Nat.pow 2 11

def fractionField (d : Double) : Nat :=
  d.bits.toNat % Nat.pow 2 52

def isFinite (d : Double) : Bool :=
  d.exponentField < 2047

def isNaN (d : Double) : Bool :=
  d.exponentField = 2047 && d.fractionField ≠ 0

/-- A finite number is `significand · 2 ^ exponent`, up to its sign. -/
def significand (d : Double) : Nat :=
  if d.exponentField = 0 then d.fractionField else d.fractionField + Nat.pow 2 52

def exponent (d : Double) : Int :=
  (if d.exponentField = 0 then 1 else d.exponentField : Nat) - 1075

/-- Numbers other than NaN lie in the order of their keys; both zeros have the key 0. -/
def orderKey (d : Double) : Int :=
  let magnitude : Int := (d.bits.toNat % Nat.pow 2 63 : Nat)
  if d.negative then -magnitude else magnitude

/-- Numeric equality: NaN equals nothing, and the two zeros are equal. -/
def eqv (a b : Double) : Bool :=
  !a.isNaN && !b.isNaN && a.orderKey = b.orderKey

def lt (a b : Double) : Bool :=
  !a.isNaN && !b.isNaN && a.orderKey < b.orderKey

theorem eqv_comm (a b : Double) : a.eqv b = b.eqv a := by
  simp [eqv, Bool.and_comm, Bool.and_assoc, eq_comm]

/-- The number with a given sign and magnitude bits. -/
def ofMagnitude (neg : Bool) (magnitude : Nat) : Double :=
  ⟨UInt64.ofNat (if neg then Nat.pow 2 63 + magnitude else magnitude)⟩

def infinity (neg : Bool) : Double :=
  ofMagnitude neg (2047 * Nat.pow 2 52)

def zero (neg : Bool) : Double :=
  ofMagnitude neg 0

def nan : Double :=
  ⟨0x7FF8000000000000⟩

/-- The nearest natural number to `num / den`, the even one of two. -/
def roundDiv (num den : Nat) : Nat :=
  let whole := num / den
  let twice := 2 * (num % den)
  if den < twice ∨ (twice = den ∧ whole % 2 = 1) then whole + 1 else whole

/-- `num · 2 ^ shift / den` as a fraction. -/
def scaled (num den : Nat) (shift : Int) : Nat × Nat :=
  (num * Nat.pow 2 shift.toNat, den * Nat.pow 2 (-shift).toNat)

/-- The double nearest to `num / den`, ties to the even significand; infinity beyond the range. -/
def ofRatio (neg : Bool) (num den : Nat) : Double :=
  if num = 0 ∨ den = 0 then zero neg
  else
    let guess : Int := max ((num.log2 : Int) - den.log2 - 53) (-1074)
    let (n, d) := scaled num den (-guess)
    let unit := if n / d < Nat.pow 2 53 then guess else guess + 1
    let (n, d) := scaled num den (-unit)
    let magnitude := (unit + 1074).toNat * Nat.pow 2 52 + roundDiv n d
    if 2047 * Nat.pow 2 52 ≤ magnitude then infinity neg else ofMagnitude neg magnitude

def ofInt (n : Int) : Double :=
  ofRatio (n < 0) n.natAbs 1

def ofNat (n : Nat) : Double :=
  ofRatio false n 1

/-- `digits · 10 ^ exponent`, rounded once. Exponents far outside the range are settled first, so
no large power is formed for them. -/
def ofDecimal (neg : Bool) (digits : Nat) (exponent : Int) : Double :=
  let leading : Int := exponent + digits.log2 / 4
  if digits = 0 then zero neg
  else if 400 < leading then infinity neg
  else if exponent + digits.log2 < -400 then zero neg
  else if 0 ≤ exponent then ofRatio neg (digits * Nat.pow 10 exponent.toNat) 1
  else ofRatio neg digits (Nat.pow 10 (-exponent).toNat)

/-- The absolute value of a finite number as a fraction. -/
def ratio (d : Double) : Nat × Nat :=
  scaled d.significand 1 d.exponent

/-- The integer a finite number stands for, if it is one. -/
def toInt? (d : Double) : Option Int :=
  let (num, den) := d.ratio
  if d.isFinite ∧ num % den = 0 then
    some (if d.negative then -(num / den : Nat) else (num / den : Nat))
  else none

end Double

end DocMapper
