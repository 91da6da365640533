import DocMapper.Proofs.Digits
/-!
# Spellings of addresses

An address may be written in more ways than one: the mark may be missing, numbers may begin with
zeros, and zero may be negative. What is read is exactly the numbers that are written, as long as
they have room, and of all spellings of an address one is printed.
-/

namespace DocMapper

open Text

/-! ### Numbers -/

/-- One or more digits, and the number that they write in base ten. -/
structure IsNumeral (cs : List Char) (n : Nat) : Prop where
  nonempty : cs ≠ []
  digits : ∀ c ∈ cs, '0' ≤ c ∧ c ≤ '9'
  number : Nat.ofDigitChars 10 cs 0 = n

/-- A number may have a minus sign before its digits, and nothing else. -/
inductive SpellsInt : List Char → Int → Prop where
  | plain {digits : List Char} {n : Nat} (h : IsNumeral digits n) : SpellsInt digits n
  | negative {digits : List Char} {n : Nat} (h : IsNumeral digits n) :
      SpellsInt ('-' :: digits) (-n)

theorem isDigits_eq_true_iff {cs : List Char} :
    isDigits cs = true ↔ cs ≠ [] ∧ ∀ c ∈ cs, '0' ≤ c ∧ c ≤ '9' := by
  simp [isDigits, isAsciiDigit]

theorem Number.readNat?_eq_some_iff {cs : List Char} {n : Nat} :
    readNat? cs = some n ↔ IsNumeral cs n := by
  rw [readNat?, Option.ite_none_right_eq_some, isDigits_eq_true_iff, natOfDigits_eq_ofDigitChars,
    Option.some.injEq]
  constructor
  · rintro ⟨⟨hne, hall⟩, hnumber⟩
    exact ⟨hne, hall, hnumber⟩
  · rintro ⟨hne, hall, hnumber⟩
    exact ⟨⟨hne, hall⟩, hnumber⟩

section Characters

variable {cs : List Char} {n : Nat} {m : Int} {c : Char}

theorem IsNumeral.not_mem (h : IsNumeral cs n) (hc : ¬('0' ≤ c ∧ c ≤ '9')) : c ∉ cs :=
  fun hmem => hc (h.digits c hmem)

theorem SpellsInt.not_mem (h : SpellsInt cs m) (hc : ¬('0' ≤ c ∧ c ≤ '9')) (hsign : c ≠ '-') :
    c ∉ cs := by
  cases h with
  | plain h => exact h.not_mem hc
  | negative h => exact List.not_mem_cons_of_ne_of_not_mem hsign (h.not_mem hc)

end Characters

theorem cutAt?_eq_some_iff {sep : Char} {cs before after : List Char} :
    cutAt? sep cs = some (before, after) ↔ sep ∉ before ∧ cs = before ++ sep :: after := by
  refine ⟨fun h => ?_, fun ⟨hsep, heq⟩ => heq ▸ RecordId.cutAt?_append hsep after⟩
  induction cs generalizing before with
  | nil => cases h
  | cons c rest ih =>
    rw [cutAt?] at h
    split at h
    · next hc =>
      cases h
      exact ⟨List.not_mem_nil, by rw [hc, List.nil_append]⟩
    · next hc =>
      obtain ⟨⟨first, last⟩, hrest, hpair⟩ := Option.map_eq_some_iff.mp h
      cases hpair
      obtain ⟨hsep, heq⟩ := ih hrest
      exact ⟨List.not_mem_cons_of_ne_of_not_mem (Ne.symm hc) hsep, congrArg (c :: ·) heq⟩

/-! ### Addresses -/

namespace RecordId

theorem readSigned?_negative (digits : List Char) :
    readSigned? ('-' :: digits) = (Number.readNat? digits).map fun n : Nat => -(n : Int) := by
  rw [readSigned?]
  cases Number.readNat? digits <;> rfl

theorem readSigned?_plain {digits : List Char} (h : ∀ rest, digits ≠ '-' :: rest) :
    readSigned? digits = (Number.readNat? digits).map fun n : Nat => (n : Int) := by
  rw [readSigned?.eq_2 digits h]
  cases Number.readNat? digits <;> rfl

theorem readSigned?_eq_some_iff {cs : List Char} {n : Int} :
    readSigned? cs = some n ↔ SpellsInt cs n := by
  constructor
  · intro h
    by_cases hsign : ∃ digits, cs = '-' :: digits
    · obtain ⟨digits, rfl⟩ := hsign
      rw [readSigned?_negative] at h
      obtain ⟨k, hk, rfl⟩ := Option.map_eq_some_iff.mp h
      exact .negative (Number.readNat?_eq_some_iff.mp hk)
    · rw [readSigned?_plain (not_exists.mp hsign)] at h
      obtain ⟨k, hk, rfl⟩ := Option.map_eq_some_iff.mp h
      exact .plain (Number.readNat?_eq_some_iff.mp hk)
  · intro h
    cases h with
    | negative h => rw [readSigned?_negative, Number.readNat?_eq_some_iff.mpr h, Option.map_some]
    | plain h =>
      -- a sign is no digit
      have hsign : ∀ rest, cs ≠ '-' :: rest := by
        rintro rest rfl
        exact h.not_mem (by decide) List.mem_cons_self
      rw [readSigned?_plain hsign, Number.readNat?_eq_some_iff.mpr h, Option.map_some]

theorem cluster?_eq_some_iff {n : Int} {c : Int32} : cluster? n = some c ↔ c.toInt = n := by
  refine ⟨fun h => ?_, fun h => h ▸ cluster?_toInt c⟩
  obtain ⟨⟨hlower, hupper⟩, hc⟩ := Option.ite_none_right_eq_some.mp h
  cases hc
  exact Int32.toInt_ofInt_of_le hlower (Int.lt_of_le_of_lt hupper (by decide))

/-- How an address may be written: two numbers with a colon between them, with or without a mark
before them. -/
inductive Spells : List Char → Int → Int → Prop where
  | bare {before after : List Char} {cluster position : Int} (hcluster : SpellsInt before cluster)
    (hposition : SpellsInt after position) : Spells (before ++ ':' :: after) cluster position
  | marked {before after : List Char} {cluster position : Int} (hcluster : SpellsInt before cluster)
    (hposition : SpellsInt after position) :
    Spells ('#' :: (before ++ ':' :: after)) cluster position

section Reading

variable {cs before after : List Char} {cluster position : Int} {id : RecordId}

/-- What stands behind the mark, if there is one. -/
def withoutMark (cs : List Char) : List Char :=
  match cs with
  | '#' :: rest => rest
  | _ => cs

theorem ofChars?_eq_some_iff_parts : ofChars? cs = some id ↔ ∃ before after,
    withoutMark cs = before ++ ':' :: after ∧ SpellsInt before id.cluster.toInt ∧
      SpellsInt after id.position.toInt := by
  have hparts : ofChars? cs = (cutAt? ':' (withoutMark cs)).bind fun parts =>
      ((readSigned? parts.1).bind cluster?).bind fun cluster =>
        ((readSigned? parts.2).bind Number.int64?).bind fun position =>
          some ⟨cluster, position⟩ := rfl
  rw [hparts]
  constructor
  · intro h
    obtain ⟨⟨before, after⟩, hcut, h⟩ := Option.bind_eq_some_iff.mp h
    obtain ⟨cluster, hcluster, h⟩ := Option.bind_eq_some_iff.mp h
    obtain ⟨position, hposition, h⟩ := Option.bind_eq_some_iff.mp h
    cases h
    obtain ⟨n, hn, hcluster⟩ := Option.bind_eq_some_iff.mp hcluster
    obtain ⟨m, hm, hposition⟩ := Option.bind_eq_some_iff.mp hposition
    refine ⟨before, after, (cutAt?_eq_some_iff.mp hcut).2, ?_, ?_⟩
    · exact cluster?_eq_some_iff.mp hcluster ▸ readSigned?_eq_some_iff.mp hn
    · exact Number.int64?_eq_some_iff.mp hposition ▸ readSigned?_eq_some_iff.mp hm
  · rintro ⟨before, after, hsplit, hcluster, hposition⟩
    -- the number before the colon holds no other colon
    have hcut : cutAt? ':' (withoutMark cs) = some (before, after) :=
      cutAt?_eq_some_iff.mpr ⟨hcluster.not_mem (by decide) (by decide), hsplit⟩
    rw [hcut, Option.bind_some, readSigned?_eq_some_iff.mpr hcluster,
      readSigned?_eq_some_iff.mpr hposition, Option.bind_some, Option.bind_some, cluster?_toInt,
      Number.int64?_toInt, Option.bind_some, Option.bind_some]

/-- A number begins with a digit or a sign, and never with the mark. -/
theorem withoutMark_of_spellsInt (h : SpellsInt before cluster) :
    withoutMark (before ++ ':' :: after) = before ++ ':' :: after := by
  unfold withoutMark
  split
  · next rest hmark =>
    have hmem : '#' ∈ before := by
      cases before with
      | nil => cases hmark
      | cons c others => exact (List.cons.inj hmark).1 ▸ List.mem_cons_self
    exact absurd hmem (h.not_mem (by decide) (by decide))
  · rfl

/-- What is read are exactly the numbers that are written. -/
theorem ofChars?_eq_some_iff :
    ofChars? cs = some id ↔ Spells cs id.cluster.toInt id.position.toInt := by
  rw [ofChars?_eq_some_iff_parts]
  constructor
  · rintro ⟨before, after, hsplit, hcluster, hposition⟩
    unfold withoutMark at hsplit
    split at hsplit
    · exact hsplit ▸ .marked hcluster hposition
    · exact hsplit ▸ .bare hcluster hposition
  · intro h
    generalize hn : id.cluster.toInt = n at h
    generalize hm : id.position.toInt = m at h
    cases h with
    | bare hcluster hposition =>
      exact ⟨_, _, withoutMark_of_spellsInt hcluster, hcluster, hposition⟩
    | marked hcluster hposition => exact ⟨_, _, rfl, hcluster, hposition⟩

end Reading

theorem toList_repr (n : Int) : n.repr.toList = intChars n := by
  unfold intChars
  cases n with
  | ofNat n =>
    have hsign : ¬ Int.ofNat n < 0 := (Int.natCast_nonneg n).not_gt
    rw [if_neg hsign]
    exact Nat.toList_repr
  | negSucc n =>
    rw [if_pos (Int.negSucc_lt_zero n)]
    exact String.toList_append.trans (congrArg ('-' :: ·) Nat.toList_repr)

/-- The text has neither leading zeros nor a sign before zero. -/
theorem text_eq (id : RecordId) :
    id.text = "#" ++ toString id.cluster.toInt ++ ":" ++ toString id.position.toInt := by
  apply String.toList_injective
  simp [text, chars, toList_repr]

theorem isValid_iff {s : String} : isValid s = true ↔ ∃ cluster position,
    Spells s.toList cluster position ∧ (-2 ^ 31 ≤ cluster ∧ cluster < 2 ^ 31) ∧
      (-2 ^ 63 ≤ position ∧ position < 2 ^ 63) := by
  rw [isValid, Option.isSome_iff_exists]
  constructor
  · rintro ⟨id, hread⟩
    exact ⟨_, _, ofChars?_eq_some_iff.mp hread, ⟨id.cluster.le_toInt, id.cluster.toInt_lt⟩,
      ⟨id.position.le_toInt, id.position.toInt_lt⟩⟩
  · rintro ⟨cluster, position, hspells, hcluster, hposition⟩
    refine ⟨⟨.ofInt cluster, .ofInt position⟩, ofChars?_eq_some_iff.mpr ?_⟩
    rwa [Int32.toInt_ofInt_of_le hcluster.1 hcluster.2,
      Int64.toInt_ofInt_of_le hposition.1 hposition.2]

/-- An address is read from its spellings and from nothing else, and a text is an address exactly if
it spells two numbers that there is room for. Whatever the spelling was, the address is printed in
the one way without leading zeros, and it is read back from there. -/
theorem spellings_read (s : String) (id : RecordId) :
    (ofText? s = some id ↔ Spells s.toList id.cluster.toInt id.position.toInt) ∧
      (isValid s = true ↔ ∃ cluster position, Spells s.toList cluster position ∧
        (-2 ^ 31 ≤ cluster ∧ cluster < 2 ^ 31) ∧ (-2 ^ 63 ≤ position ∧ position < 2 ^ 63)) ∧
      id.text = "#" ++ toString id.cluster.toInt ++ ":" ++ toString id.position.toInt ∧
      ofText? id.text = some id :=
  ⟨ofChars?_eq_some_iff, isValid_iff, id.text_eq, ofText?_text id⟩

example : ofText? "-0:007" = some ⟨0, 7⟩ ∧ text ⟨0, 7⟩ = "#0:7" ∧
    isValid "#2147483648:0" = false := by
  decide

end RecordId

end DocMapper
