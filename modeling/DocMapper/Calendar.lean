import DocMapper.Number.Reading
/-!
Dates with a time of day, to the second and without a time zone. Years run from -9999 to 9999 of
the Gregorian calendar, extended backwards.
-/

namespace DocMapper

namespace Calendar

def isLeap (year : Int) : Bool :=
  year % 4 = 0 && (year % 100 ≠ 0 || year % 400 = 0)

def daysInMonth (year : Int) (month : Nat) : Nat :=
  if month = 2 then if isLeap year then 29 else 28
  else if month = 4 ∨ month = 6 ∨ month = 9 ∨ month = 11 then 30
  else 31

def isDate (year : Int) (month day : Nat) : Bool :=
  -9999 ≤ year && year ≤ 9999 && 1 ≤ month && month ≤ 12 && 1 ≤ day &&
    day ≤ daysInMonth year month

def isTime (hour minute second : Nat) : Bool :=
  hour < 24 && minute < 60 && second < 60

end Calendar

structure DateTime where
  year : Int
  month : Nat
  day : Nat
  hour : Nat
  minute : Nat
  second : Nat
  isDate : Calendar.isDate year month day = true := by decide
  isTime : Calendar.isTime hour minute second = true := by decide
  deriving DecidableEq

namespace DateTime

def ofParts? (year : Int) (month day hour minute second : Nat) : Option DateTime :=
  if hd : Calendar.isDate year month day = true then
    if ht : Calendar.isTime hour minute second = true then
      some ⟨year, month, day, hour, minute, second, hd, ht⟩
    else none
  else none

theorem ofParts?_self (t : DateTime) :
    ofParts? t.year t.month t.day t.hour t.minute t.second = some t := by
  simp [ofParts?, t.isDate, t.isTime]

/-- A number in decimal digits, with zeros in front up to a width. -/
def padded (width n : Nat) : List Char :=
  let digits := Nat.toDigits 10 n
  List.replicate (width - digits.length) '0' ++ digits

def dateChars (t : DateTime) : List Char :=
  (if t.year < 0 then ['-'] else []) ++ padded 4 t.year.natAbs ++ '-' :: padded 2 t.month ++
    '-' :: padded 2 t.day

def timeChars (t : DateTime) : List Char :=
  padded 2 t.hour ++ ':' :: padded 2 t.minute ++ ':' :: padded 2 t.second

/-- `YYYY-MM-DD HH:MM:SS`, a year before 0 with a minus sign. -/
def chars (t : DateTime) : List Char :=
  t.dateChars ++ ' ' :: t.timeChars

def text (t : DateTime) : String :=
  String.ofList t.chars

/-- Exactly `width` digits, and the rest. -/
def takeDigits? (width : Nat) (cs : List Char) : Option (Nat × List Char) :=
  let digits := cs.take width
  if digits.length = width ∧ Text.isDigits digits then
    some (Text.natOfDigits digits, cs.drop width)
  else none

/-- A given character and then exactly two digits. -/
def takePart? (mark : Char) : List Char → Option (Nat × List Char)
  | c :: rest => if c = mark then takeDigits? 2 rest else none
  | [] => none

/-- Reads `YYYY-MM-DD`, alone for midnight or followed by a blank and `HH:MM:SS`. The year may carry
a sign. -/
def ofChars? (cs : List Char) : Option DateTime := do
  let (neg, unsigned) := Number.takeSign cs
  let (years, rest) ← takeDigits? 4 unsigned
  let (month, rest) ← takePart? '-' rest
  let (day, rest) ← takePart? '-' rest
  let year : Int := if neg then -(years : Int) else years
  match rest with
  | [] => ofParts? year month day 0 0 0
  | _ =>
    let (hour, rest) ← takePart? ' ' rest
    let (minute, rest) ← takePart? ':' rest
    let (second, rest) ← takePart? ':' rest
    if rest.isEmpty then ofParts? year month day hour minute second else none

def ofText? (s : String) : Option DateTime :=
  ofChars? s.toList

/-- The date that many days after 1970-01-01, counted in eras of four hundred years that begin in
March. -/
def dateOfDays (days : Int) : Int × Nat × Nat :=
  let shifted := days + 719468
  let era := shifted.fdiv 146097
  let dayOfEra := (shifted.fmod 146097).toNat
  let yearOfEra := (dayOfEra - dayOfEra / 1460 + dayOfEra / 36524 - dayOfEra / 146096) / 365
  let dayOfYear := dayOfEra - (365 * yearOfEra + yearOfEra / 4 - yearOfEra / 100)
  let fromMarch := (5 * dayOfYear + 2) / 153
  let day := dayOfYear - (153 * fromMarch + 2) / 5 + 1
  let month := if fromMarch < 10 then fromMarch + 3 else fromMarch - 9
  (era * 400 + yearOfEra + (if month ≤ 2 then 1 else 0), month, day)

/-- The time that many seconds after the start of 1970. -/
def ofUnix? (seconds : Int) : Option DateTime :=
  let (year, month, day) := dateOfDays (seconds.fdiv 86400)
  let rest := (seconds.fmod 86400).toNat
  ofParts? year month day (rest / 3600) (rest / 60 % 60) (rest % 60)

end DateTime

end DocMapper
