import DocMapper.Number.Double
import DocMapper.Text.Ascii
/-!
Reading numbers from text. Only ASCII digits count, nothing may stand around a number, and an
integer outside its range is no number.
-/

namespace DocMapper.Number

/-- An optional sign and the rest. -/
def takeSign : List Char → Bool × List Char
  | '-' :: rest => (true, rest)
  | '+' :: rest => (false, rest)
  | cs => (false, cs)

def readNat? (cs : List Char) : Option Nat :=
  if Text.isDigits cs then some (Text.natOfDigits cs) else none

def readInt? (cs : List Char) : Option Int :=
  let (neg, digits) := takeSign cs
  (readNat? digits).map fun n => if neg then -(n : Int) else n

def inInt64 (n : Int) : Bool :=
  Int64.minValue.toInt ≤ n && n ≤ Int64.maxValue.toInt

def int64? (n : Int) : Option Int64 :=
  if inInt64 n then some (Int64.ofInt n) else none

def uint64? (n : Int) : Option UInt64 :=
  if 0 ≤ n ∧ n < UInt64.size then some (UInt64.ofNat n.toNat) else none

theorem int64?_toInt (n : Int64) : int64? n.toInt = some n := by
  have h : inInt64 n.toInt = true := by
    simp only [inInt64, Bool.and_eq_true, decide_eq_true_eq]
    exact ⟨Int64.minValue_le_toInt n, Int64.toInt_le n⟩
  simp [int64?, h]

theorem int64?_eq_some_iff {n : Int} {m : Int64} : int64? n = some m ↔ m.toInt = n := by
  refine ⟨fun h => ?_, fun h => h ▸ int64?_toInt m⟩
  obtain ⟨hrange, hm⟩ := Option.ite_none_right_eq_some.mp h
  cases hm
  simp only [inInt64, Bool.and_eq_true, decide_eq_true_eq] at hrange
  exact Int64.toInt_ofInt_of_le hrange.1 (Int.lt_of_le_of_lt hrange.2 (by decide))

theorem uint64?_eq_some_iff {n : Int} {m : UInt64} : uint64? n = some m ↔ (m.toNat : Int) = n := by
  unfold uint64?
  have hlt := m.toNat_lt_size
  constructor
  · intro h
    split at h
    · next hrange =>
      cases h
      rw [UInt64.toNat_ofNat_of_lt' (by omega)]
      omega
    · cases h
  · rintro rfl
    rw [if_pos (by omega), Int.toNat_natCast, UInt64.ofNat_toNat]

def readInt64? (cs : List Char) : Option Int64 :=
  (readInt? cs).bind int64?

/-- A position in a list: an optional `+` and digits, below `2 ^ 64`. -/
def readIndex? (cs : List Char) : Option Nat :=
  let digits := match cs with
    | '+' :: rest => rest
    | _ => cs
  (readNat? digits).bind fun n => if n < UInt64.size then some n else none

/-- The exponent after an `e`; nothing at all counts as 0. -/
def readExponent? : List Char → Option Int
  | [] => some 0
  | c :: rest => if c = 'e' ∨ c = 'E' then readInt? rest else none

/-- Reads a double. The words `inf`, `infinity` and `nan` count in any letter case, either side of
the point may be empty but not both, and the result is rounded once. -/
def readDouble? (cs : List Char) : Option Double :=
  let (neg, body) := takeSign cs
  let word := String.ofList (body.map Char.toLower)
  if word = "inf" ∨ word = "infinity" then some (Double.infinity neg)
  else if word = "nan" then some Double.nan
  else
    let whole := body.takeWhile Text.isAsciiDigit
    let (places, rest) := match body.dropWhile Text.isAsciiDigit with
      | '.' :: rest => (rest.takeWhile Text.isAsciiDigit, rest.dropWhile Text.isAsciiDigit)
      | rest => ([], rest)
    if whole.isEmpty && places.isEmpty then none
    else (readExponent? rest).map fun exponent =>
      Double.ofDecimal neg (Text.natOfDigits (whole ++ places)) (exponent - places.length)

end DocMapper.Number
