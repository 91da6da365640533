import DocMapper.Number.Shortest
/-!
Two written forms of a double over the same shortest digits: the plain form, which never uses an
exponent and writes whole numbers without a point, and the form of data files, which keeps a point
and uses an exponent for very large and very small numbers.
-/

namespace DocMapper.Double

def digitChars (n : Nat) : List Char :=
  Nat.toDigits 10 n

/-- The decimal written without an exponent, and without a point when it is a whole number. -/
def positional (d : Decimal) : List Char :=
  let digits := digitChars d.digits
  if 0 ≤ d.exponent then digits ++ List.replicate d.exponent.toNat '0'
  else
    let places := (-d.exponent).toNat
    if places < digits.length then
      digits.take (digits.length - places) ++ '.' :: digits.drop (digits.length - places)
    else
      '0' :: '.' :: (List.replicate (places - digits.length) '0' ++ digits)

/-- One digit before the point, and an exponent that always carries its sign. -/
def scientific (d : Decimal) : List Char :=
  let digits := digitChars d.digits
  let exponent := d.exponent + (digits.length - 1 : Nat)
  let mark := if exponent < 0 then ['e', '-'] else ['e', '+']
  let tail := if digits.length ≤ 1 then [] else '.' :: digits.tail
  digits.take 1 ++ tail ++ mark ++ digitChars exponent.natAbs

def signChars (d : Double) : List Char :=
  if d.negative then ['-'] else []

def plain (d : Double) : String :=
  if d.isNaN then "NaN"
  else if !d.isFinite then if d.negative then "-inf" else "inf"
  else if d.significand = 0 then if d.negative then "-0" else "0"
  else String.ofList (d.signChars ++ positional (d.shortest .up))

/-- The form of data files; there is none for infinities and NaN. From `1e-5` up to but not
including `1e16` no exponent is used. -/
def dataText? (d : Double) : Option String :=
  if !d.isFinite then none
  else if d.significand = 0 then some (if d.negative then "-0.0" else "0.0")
  else
    let decimal := d.shortest .toEven
    let leading := decimal.exponent + ((digitChars decimal.digits).length - 1 : Nat)
    let body :=
      if leading < -5 ∨ 16 ≤ leading then scientific decimal
      else if 0 ≤ decimal.exponent then positional decimal ++ ['.', '0']
      else positional decimal
    some (String.ofList (d.signChars ++ body))

end DocMapper.Double
