import DocMapper.Calendar
import DocMapper.RecordId
import Mathlib
/-!
# Numbers, addresses and dates in decimal digits

The digits of a number read back as the number, and anything but another digit ends them. So a
number is told from the text behind it, and an address and a date read back from the text that is
written for them.
-/

namespace DocMapper

namespace Text

/-! ### Digits -/

theorem natOfDigits_eq_ofDigitChars (cs : List Char) :
    natOfDigits cs = Nat.ofDigitChars 10 cs 0 := by
  simp [natOfDigits, Nat.ofDigitChars_eq_foldl, digitValue, Nat.mul_comm]

theorem natOfDigits_toDigits (n : Nat) : natOfDigits (Nat.toDigits 10 n) = n := by
  rw [natOfDigits_eq_ofDigitChars, Nat.ofDigitChars_ten_toDigits]

theorem all_isAsciiDigit_toDigits (n : Nat) : (Nat.toDigits 10 n).all isAsciiDigit = true := by
  rw [List.all_eq_true]
  exact fun c hc => Nat.isDigit_of_mem_toDigits (by omega) (by omega) hc

theorem isDigits_toDigits (n : Nat) : isDigits (Nat.toDigits 10 n) = true := by
  simp [isDigits, all_isAsciiDigit_toDigits]

/-- What a number ends before. -/
def EndsNumber (cs : List Char) : Prop :=
  ∀ c ∈ cs.head?, isAsciiDigit c = false

theorem endsNumber_nil : EndsNumber [] := by
  simp [EndsNumber]

theorem endsNumber_cons {c : Char} (h : isAsciiDigit c = false) (rest : List Char) :
    EndsNumber (c :: rest) := by
  simpa [EndsNumber] using h

theorem takeWhile_append_of_ends {digits rest : List Char}
    (hdigits : digits.all isAsciiDigit = true) (hrest : EndsNumber rest) :
    (digits ++ rest).takeWhile isAsciiDigit = digits := by
  have hnone : rest.takeWhile isAsciiDigit = [] := by
    cases rest with
    | nil => rfl
    | cons c rest => rw [List.takeWhile_cons_of_neg (by simp [hrest c rfl])]
  rw [List.takeWhile_append_of_pos (List.all_eq_true.mp hdigits), hnone, List.append_nil]

theorem toDigits_append_inj {n m : Nat} {x y : List Char} (hx : EndsNumber x) (hy : EndsNumber y)
    (h : Nat.toDigits 10 n ++ x = Nat.toDigits 10 m ++ y) : n = m ∧ x = y := by
  have hdigits : Nat.toDigits 10 n = Nat.toDigits 10 m := by
    rw [← takeWhile_append_of_ends (all_isAsciiDigit_toDigits n) hx, h,
      takeWhile_append_of_ends (all_isAsciiDigit_toDigits m) hy]
  refine ⟨?_, List.append_cancel_left (hdigits ▸ h)⟩
  rw [← natOfDigits_toDigits n, hdigits, natOfDigits_toDigits]

end Text

theorem Number.readNat?_toDigits (n : Nat) : readNat? (Nat.toDigits 10 n) = some n := by
  rw [readNat?, if_pos (Text.isDigits_toDigits n), Text.natOfDigits_toDigits]

/-- No digits begin with a sign. -/
theorem toDigits_append_ne_cons {c : Char} (hc : Text.isAsciiDigit c = false) (n : Nat)
    (x rest : List Char) : Nat.toDigits 10 n ++ x ≠ c :: rest := by
  obtain ⟨d, digits, hdigits⟩ := List.exists_cons_of_ne_nil (Nat.toDigits_ne_nil (b := 10) (n := n))
  have hd : Text.isAsciiDigit d = true := by
    have hall := Text.all_isAsciiDigit_toDigits n
    rw [hdigits, List.all_cons, Bool.and_eq_true] at hall
    exact hall.1
  rw [hdigits, List.cons_append]
  rintro h
  rw [(List.cons.inj h).1, hc] at hd
  cases hd

/-! ### Addresses -/

namespace RecordId

open Text

theorem intChars_append_inj {n m : Int} {x y : List Char} (hx : EndsNumber x) (hy : EndsNumber y)
    (h : intChars n ++ x = intChars m ++ y) : n = m ∧ x = y := by
  unfold intChars at h
  split at h <;> split at h
  · obtain ⟨habs, hrest⟩ := toDigits_append_inj hx hy (List.cons.inj h).2
    exact ⟨by omega, hrest⟩
  · exact absurd h.symm (toDigits_append_ne_cons (by decide) _ _ _)
  · exact absurd h (toDigits_append_ne_cons (by decide) _ _ _)
  · obtain ⟨habs, hrest⟩ := toDigits_append_inj hx hy h
    exact ⟨by omega, hrest⟩

theorem chars_append_inj {id other : RecordId} {x y : List Char} (hx : EndsNumber x)
    (hy : EndsNumber y) (h : id.chars ++ x = other.chars ++ y) : id = other ∧ x = y := by
  have hcolon : ∀ cs, EndsNumber (':' :: cs) := endsNumber_cons (by decide)
  simp only [chars, List.cons_append, List.append_assoc, List.cons.injEq, true_and] at h
  obtain ⟨hcluster, h⟩ := intChars_append_inj (hcolon _) (hcolon _) h
  obtain ⟨hposition, hrest⟩ := intChars_append_inj hx hy (List.cons.inj h).2
  cases id
  cases other
  simp only [mk.injEq]
  exact ⟨⟨Int32.toInt_inj.mp hcluster, Int64.toInt_inj.mp hposition⟩, hrest⟩

theorem readSigned?_intChars (n : Int) : readSigned? (intChars n) = some n := by
  unfold intChars
  split
  · next hneg =>
    simp [readSigned?, Number.readNat?_toDigits, abs_of_neg hneg]
  · next hneg =>
    unfold readSigned?
    split
    · next digits hsign =>
      exact absurd ((List.append_nil _).trans hsign) (toDigits_append_ne_cons (by decide) _ [] _)
    · simpa [Number.readNat?_toDigits] using hneg

theorem not_mem_intChars {c : Char} (hdigit : isAsciiDigit c = false) (hsign : c ≠ '-') (n : Int) :
    c ∉ intChars n := by
  have hdigits : c ∉ Nat.toDigits 10 n.natAbs := by
    intro hmem
    have h := List.all_eq_true.mp (all_isAsciiDigit_toDigits n.natAbs) c hmem
    rw [hdigit] at h
    cases h
  unfold intChars
  split
  · simp [hsign, hdigits]
  · exact hdigits

theorem cutAt?_append {sep : Char} {before : List Char} (h : sep ∉ before) (after : List Char) :
    cutAt? sep (before ++ sep :: after) = some (before, after) := by
  induction before with
  | nil => simp [cutAt?]
  | cons c rest ih =>
    have hc : c ≠ sep := fun heq => h (heq ▸ List.mem_cons_self)
    have hrest : sep ∉ rest := fun hmem => h (List.mem_cons_of_mem c hmem)
    rw [List.cons_append, cutAt?, if_neg hc, ih hrest]
    rfl

theorem cluster?_toInt (n : Int32) : cluster? n.toInt = some n := by
  rw [cluster?, if_pos ⟨Int32.minValue_le_toInt n, Int32.toInt_le n⟩, Int32.ofInt_toInt]

theorem ofText?_text (id : RecordId) : ofText? id.text = some id := by
  have hcut : cutAt? ':' (intChars id.cluster.toInt ++ ':' :: intChars id.position.toInt) =
      some (intChars id.cluster.toInt, intChars id.position.toInt) :=
    cutAt?_append (not_mem_intChars (by decide) (by decide) _) _
  simp [ofText?, text, chars, ofChars?, hcut, readSigned?_intChars, cluster?_toInt,
    Number.int64?_toInt]

end RecordId

/-! ### Dates -/

namespace DateTime

open Text

section Padded

variable {width n : Nat}

theorem length_padded (hwidth : 0 < width) (h : n < 10 ^ width) :
    (padded width n).length = width := by
  have hlength := (Nat.length_toDigits_le_iff (by omega) hwidth).mpr h
  simp only [padded, List.length_append, List.length_replicate]
  omega

theorem isDigits_padded (width n : Nat) : isDigits (padded width n) = true := by
  have hzeros : (List.replicate (width - (Nat.toDigits 10 n).length) '0').all isAsciiDigit = true :=
    List.all_eq_true.mpr fun c hc => List.eq_of_mem_replicate hc ▸ rfl
  simp [isDigits, padded, all_isAsciiDigit_toDigits, hzeros]

theorem natOfDigits_padded (width n : Nat) : natOfDigits (padded width n) = n := by
  rw [natOfDigits_eq_ofDigitChars, padded, Nat.ofDigitChars_append,
    Nat.ofDigitChars_replicate_zero, Nat.mul_zero, Nat.ofDigitChars_ten_toDigits]

theorem takeDigits?_padded (hwidth : 0 < width) (h : n < 10 ^ width) (rest : List Char) :
    takeDigits? width (padded width n ++ rest) = some (n, rest) := by
  have hlength := length_padded hwidth h
  rw [takeDigits?, List.take_left' hlength, List.drop_left' hlength]
  simp [hlength, isDigits_padded, natOfDigits_padded]

theorem takePart?_padded (mark : Char) (h : n < 100) (rest : List Char) :
    takePart? mark (mark :: (padded 2 n ++ rest)) = some (n, rest) := by
  rw [takePart?, if_pos rfl, takeDigits?_padded (by omega) (by omega)]

/-- The digits of a year are no sign. -/
theorem takeSign_padded (width n : Nat) (rest : List Char) :
    Number.takeSign (padded width n ++ rest) = (false, padded width n ++ rest) := by
  obtain ⟨hnonempty, hall⟩ := Bool.and_eq_true_iff.mp (isDigits_padded width n)
  cases hchars : padded width n with
  | nil => simp [hchars] at hnonempty
  | cons c cs =>
    rw [hchars, List.all_cons, Bool.and_eq_true] at hall
    unfold Number.takeSign
    split
    · next hsign =>
      obtain rfl := (List.cons.inj hsign).1
      exact absurd hall.1 (by decide)
    · next hsign =>
      obtain rfl := (List.cons.inj hsign).1
      exact absurd hall.1 (by decide)
    · rfl

end Padded

/-- The sign of a year and its digits. -/
theorem takeSign_year (year : Int) (rest : List Char) :
    Number.takeSign ((if year < 0 then ['-'] else []) ++ padded 4 year.natAbs ++ rest) =
      (decide (year < 0), padded 4 year.natAbs ++ rest) := by
  by_cases h : year < 0
  · simp [h, Number.takeSign]
  · simp [h, takeSign_padded]

theorem ofText?_text (t : DateTime) : ofText? t.text = some t := by
  have hdate := t.isDate
  have htime := t.isTime
  simp only [Calendar.isDate, Calendar.isTime, Bool.and_eq_true, decide_eq_true_eq] at hdate htime
  have hmonth : t.month < 100 := by omega
  have hday : t.day < 100 := by
    have hdays : Calendar.daysInMonth t.year t.month ≤ 31 := by
      unfold Calendar.daysInMonth
      split <;> split <;> omega
    omega
  have hchars : t.chars = (if t.year < 0 then ['-'] else []) ++ padded 4 t.year.natAbs ++
      '-' :: (padded 2 t.month ++ '-' :: (padded 2 t.day ++ ' ' :: (padded 2 t.hour ++
        ':' :: (padded 2 t.minute ++ ':' :: (padded 2 t.second ++ []))))) := by
    simp [chars, dateChars, timeChars]
  have hyear : (if decide (t.year < 0) = true then -(t.year.natAbs : Int) else t.year.natAbs) =
      t.year := by
    simp only [decide_eq_true_eq]
    split <;> omega
  rw [ofText?, text, String.toList_ofList, hchars, ofChars?, takeSign_year]
  simp only [takeDigits?_padded (show 0 < 4 by omega) (show t.year.natAbs < 10 ^ 4 by omega),
    takePart?_padded '-' hmonth, takePart?_padded '-' hday,
    takePart?_padded ' ' (show t.hour < 100 by omega),
    takePart?_padded ':' (show t.minute < 100 by omega),
    takePart?_padded ':' (show t.second < 100 by omega),
    Option.bind_eq_bind, Option.bind_some, hyear, List.isEmpty_nil, if_true, ofParts?_self]

end DateTime

end DocMapper
