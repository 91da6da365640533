import DocMapper.Proofs.Compile.Reading
import DocMapper.Proofs.FieldType
/-!
# Placeholders in literals

Literals bring no placeholders into a text unless their strings do. The colons that are written with
a literal stand before a blank, in maps, or before a number, in dates and addresses. Casts keep
strings, or make them from numbers, dates and addresses.
-/

namespace DocMapper

open Inline Success

namespace Inline

theorem isAsciiLetter_of_isDigit {c : Char} (h : c.isDigit = true) :
    Text.isAsciiLetter c = false := by
  simp only [Char.isDigit, Bool.and_eq_true, decide_eq_true_eq, ge_iff_le,
    UInt32.le_iff_toNat_le] at h
  simp only [Text.isAsciiLetter, Char.le_def, UInt32.le_iff_toNat_le, Bool.or_eq_false_iff,
    Bool.and_eq_false_iff, decide_eq_false_iff_not]
  have hdigits : ('0'.val.toNat = 48 ∧ '9'.val.toNat = 57) ∧
      (('a'.val.toNat = 97 ∧ 'z'.val.toNat = 122) ∧ 'A'.val.toNat = 65 ∧ 'Z'.val.toNat = 90) := by
    decide
  omega

theorem isDigit_of_mem_toDigits {c : Char} {n : Nat} (h : c ∈ Nat.toDigits 10 n) :
    c.isDigit = true :=
  Nat.isDigit_of_mem_toDigits (by omega) (by omega) h

/-- Digits, and the signs in and before numbers. -/
def IsNumeric (cs : List Char) : Prop :=
  ∀ c ∈ cs, c.isDigit = true ∨ c = '-' ∨ c = '.'

theorem isNumeric_toDigits (n : Nat) : IsNumeric (Nat.toDigits 10 n) :=
  fun _ hc => Or.inl (isDigit_of_mem_toDigits hc)

theorem isNumeric_intChars (n : Int) : IsNumeric (RecordId.intChars n) := by
  unfold RecordId.intChars
  split
  · exact List.forall_mem_cons.mpr ⟨Or.inr (Or.inl rfl), isNumeric_toDigits _⟩
  · exact isNumeric_toDigits _

variable {cs : List Char}

theorem IsNumeric.not_mem (h : IsNumeric cs) : ':' ∉ cs := by
  intro hmem
  rcases h _ hmem with hdigit | hsign | hpoint
  · exact absurd hdigit (by decide)
  · exact absurd hsign (by decide)
  · exact absurd hpoint (by decide)

theorem IsNumeric.nameAt (h : IsNumeric cs) : nameAt cs = [] := by
  rw [nameAt_eq_nil_iff]
  intro c hc
  rcases h c (List.mem_of_mem_head? hc) with hdigit | rfl | rfl
  · exact isAsciiLetter_of_isDigit hdigit
  · rfl
  · rfl

/-- A colon before a number begins no placeholder. -/
theorem IsNumeric.namesIn_append_colon (h : IsNumeric cs) (a : List Char) :
    namesIn (a ++ ':' :: cs) = namesIn a := by
  have hcolon : namesIn (':' :: cs) = [] := by
    rw [namesIn, h.nameAt, if_neg (fun hne => hne.2 rfl), namesIn_of_not_mem h.not_mem]
  rw [namesIn_append, hcolon, List.append_nil]
  rintro c hc
  cases hc
  rfl

theorem IsNumeric.append {more : List Char} (h : IsNumeric cs) (h' : IsNumeric more) :
    IsNumeric (cs ++ more) :=
  List.forall_mem_append.mpr ⟨h, h'⟩

/-! ### Quoted strings -/

theorem nameAt_flatMap_quotedChar (h : nameAt cs = []) :
    nameAt (cs.flatMap Text.quotedChar) = [] := by
  rw [nameAt_eq_nil_iff] at h ⊢
  cases cs with
  | nil => exact h
  | cons d rest =>
    rw [List.flatMap_cons]
    intro c hc
    unfold Text.quotedChar at hc
    split at hc
    · cases hc
      rfl
    split at hc
    · cases hc
      rfl
    split at hc
    · cases hc
      rfl
    · cases hc
      exact h _ rfl

theorem not_mem_quotedChar {c : Char} (hc : c ≠ ':') : ':' ∉ Text.quotedChar c := by
  unfold Text.quotedChar
  split
  · decide
  split
  · decide
  split
  · decide
  · simpa using hc.symm

theorem namesIn_flatMap_quotedChar (h : namesIn cs = []) :
    namesIn (cs.flatMap Text.quotedChar) = [] := by
  induction cs with
  | nil => rfl
  | cons c rest ih =>
    rw [List.flatMap_cons]
    rw [namesIn] at h
    split at h
    · cases h
    · next hplain =>
      by_cases hc : c = ':'
      · subst hc
        have hname : nameAt rest = [] := not_not.mp fun hne => hplain ⟨rfl, hne⟩
        have hcolon : Text.quotedChar ':' = [':'] := rfl
        rw [hcolon, List.singleton_append, namesIn, nameAt_flatMap_quotedChar hname,
          if_neg (fun hne => hne.2 rfl), ih h]
      · rw [namesIn_append_of_not_mem (not_mem_quotedChar hc), ih h]

theorem namesIn_quotedChars (h : namesIn cs = []) : namesIn (Text.quotedChars cs) = [] := by
  have hlast := namesIn_append_break (c := '"') rfl (cs.flatMap Text.quotedChar) []
  rw [Text.quotedChars, namesIn_cons_of_ne (by decide), hlast, namesIn_flatMap_quotedChar h]
  rfl

/-- A colon behind a quoted string, with a blank after it, parts a text. -/
theorem namesIn_quotedChars_colon (h : namesIn cs = []) (b : List Char) :
    namesIn (Text.quotedChars cs ++ ':' :: ' ' :: b) = namesIn b := by
  rw [namesIn_append, namesIn_quotedChars h]
  · rfl
  · rintro c hc
    cases hc
    rfl

end Inline

/-! ### Numbers, dates and addresses -/

theorem Double.isNumeric_positional (d : Decimal) : IsNumeric (positional d) := by
  have hzeros : ∀ n, IsNumeric (List.replicate n '0') := by
    intro n c hc
    rw [List.eq_of_mem_replicate hc]
    exact Or.inl rfl
  have hdigits : IsNumeric (digitChars d.digits) := isNumeric_toDigits _
  unfold positional
  dsimp only
  split
  · exact hdigits.append (hzeros _)
  split
  · refine IsNumeric.append (fun c hc => hdigits c (List.mem_of_mem_take hc)) ?_
    exact List.forall_mem_cons.mpr
      ⟨Or.inr (Or.inr rfl), fun c hc => hdigits c (List.mem_of_mem_drop hc)⟩
  · exact List.forall_mem_cons.mpr ⟨Or.inl rfl, List.forall_mem_cons.mpr
      ⟨Or.inr (Or.inr rfl), (hzeros _).append hdigits⟩⟩

theorem Double.not_mem_plain (d : Double) : ':' ∉ d.plain.toList := by
  unfold plain
  split
  · decide
  split
  · split <;> decide
  split
  · split <;> decide
  · have hsign : IsNumeric d.signChars := by
      unfold signChars
      split
      · exact List.forall_mem_singleton.mpr (Or.inr (Or.inl rfl))
      · exact nofun
    rw [String.toList_ofList]
    exact (hsign.append (isNumeric_positional _)).not_mem

theorem DateTime.isNumeric_padded (width n : Nat) : IsNumeric (padded width n) := by
  refine IsNumeric.append (fun c hc => ?_) (isNumeric_toDigits n)
  rw [List.eq_of_mem_replicate hc]
  exact Or.inl rfl

theorem DateTime.namesIn_chars (t : DateTime) : namesIn t.chars = [] := by
  have hsign : IsNumeric (if t.year < 0 then ['-'] else []) := by
    split
    · exact List.forall_mem_singleton.mpr (Or.inr (Or.inl rfl))
    · exact nofun
  have hpart : ∀ n, IsNumeric ('-' :: padded 2 n) := fun n =>
    List.forall_mem_cons.mpr ⟨Or.inr (Or.inl rfl), isNumeric_padded 2 n⟩
  have hdate : IsNumeric t.dateChars :=
    ((hsign.append (isNumeric_padded 4 _)).append (hpart _)).append (hpart _)
  have htime : namesIn t.timeChars = [] := by
    rw [timeChars, (isNumeric_padded 2 _).namesIn_append_colon,
      (isNumeric_padded 2 _).namesIn_append_colon,
      namesIn_of_not_mem (isNumeric_padded 2 _).not_mem]
  rw [chars, namesIn_append_of_not_mem hdate.not_mem, namesIn_cons_of_ne (by decide), htime]

theorem RecordId.namesIn_chars (id : RecordId) : namesIn id.chars = [] := by
  rw [chars, namesIn_cons_of_ne (by decide), (isNumeric_intChars _).namesIn_append_colon,
    namesIn_of_not_mem (isNumeric_intChars _).not_mem]

/-! ### Values -/

namespace Value

mutual

/-- No string and no key has a colon before a letter. -/
def Quiet : Value → Prop
  | .string s => Inline.Quiet s
  | .list items => AllQuiet items
  | .map entries => EntriesQuiet entries
  | _ => True

def AllQuiet : List Value → Prop
  | [] => True
  | v :: rest => v.Quiet ∧ AllQuiet rest

def EntriesQuiet : List (String × Value) → Prop
  | [] => True
  | (key, v) :: rest => Inline.Quiet key ∧ v.Quiet ∧ EntriesQuiet rest

end

theorem allQuiet_iff {items : List Value} : AllQuiet items ↔ ∀ v ∈ items, v.Quiet := by
  induction items with
  | nil => simp [AllQuiet]
  | cons v rest ih => simp [AllQuiet, ih]

theorem entriesQuiet_iff {entries : List (String × Value)} :
    EntriesQuiet entries ↔ ∀ entry ∈ entries, Inline.Quiet entry.1 ∧ entry.2.Quiet := by
  induction entries with
  | nil => simp [EntriesQuiet]
  | cons entry rest ih => simp [EntriesQuiet, ih, and_assoc]

@[simp]
theorem quiet_list_iff {items : List Value} : (list items).Quiet ↔ ∀ v ∈ items, v.Quiet := by
  rw [Quiet, allQuiet_iff]

@[simp]
theorem quiet_map_iff {entries : List (String × Value)} :
    (map entries).Quiet ↔ ∀ entry ∈ entries, Inline.Quiet entry.1 ∧ entry.2.Quiet := by
  rw [Quiet, entriesQuiet_iff]

mutual

theorem Quiet.namesIn_literalChars {v : Value} (h : v.Quiet) : namesIn v.literalChars = [] := by
  cases v with
  | null => rfl
  | bool b => cases b <;> rfl
  | int n => exact namesIn_of_not_mem (isNumeric_intChars n.toInt).not_mem
  | float d => exact namesIn_of_not_mem d.not_mem_plain
  | string s =>
    rw [Quiet] at h
    exact namesIn_quotedChars (quiet_iff.mp h)
  | dateTime t => exact namesIn_quotedChars t.namesIn_chars
  | link id => exact id.namesIn_chars
  | list items =>
    rw [Quiet] at h
    have hlast := namesIn_append_break (c := ']') rfl (itemChars items) []
    rw [literalChars, namesIn_cons_of_ne (by decide), hlast, h.namesIn_itemChars]
    rfl
  | map entries =>
    rw [Quiet] at h
    have hlast := namesIn_append_break (c := '}') rfl (entryChars entries) []
    rw [literalChars, namesIn_cons_of_ne (by decide), hlast, h.namesIn_entryChars]
    rfl

theorem AllQuiet.namesIn_itemChars {items : List Value} (h : AllQuiet items) :
    namesIn (itemChars items) = [] := by
  match items with
  | [] => rfl
  | [item] =>
    rw [itemChars]
    exact h.1.namesIn_literalChars
  | first :: second :: rest =>
    rw [itemChars, namesIn_append_break rfl, h.1.namesIn_literalChars,
      namesIn_cons_of_ne (by decide), h.2.namesIn_itemChars]
    · rfl
    · exact nofun

theorem EntriesQuiet.namesIn_entryChars {entries : List (String × Value)}
    (h : EntriesQuiet entries) : namesIn (entryChars entries) = [] := by
  match entries with
  | [] => rfl
  | [(key, item)] =>
    rw [entryChars, namesIn_quotedChars_colon (quiet_iff.mp h.1)]
    exact h.2.1.namesIn_literalChars
  | (key, item) :: second :: rest =>
    rw [entryChars, namesIn_quotedChars_colon (quiet_iff.mp h.1), namesIn_append_break rfl,
      h.2.1.namesIn_literalChars, namesIn_cons_of_ne (by decide), h.2.2.namesIn_entryChars]
    · rfl
    · exact nofun

end

theorem Quiet.literal {v : Value} (h : v.Quiet) : placeholders v.literal = [] := by
  rw [Value.literal, placeholders_ofList, h.namesIn_literalChars]

end Value

/-! ### Casts -/

namespace FieldType

open Value (Quiet)

theorem quiet_itemsOf {v : Value} (h : v.Quiet) : ∀ item ∈ itemsOf v, item.Quiet := by
  cases v with
  | list items => exact Value.quiet_list_iff.mp h
  | null | bool | int | float | string | dateTime | link | map =>
    exact List.forall_mem_singleton.mpr h

theorem quiet_of_castString? {v : Value} {s : String} (h : v.Quiet) (hs : castString? v = some s) :
    Inline.Quiet s := by
  have hliteral := h.literal
  cases v with
  | string t =>
    cases hs
    exact h
  | int n | float d | bool b =>
    cases hs
    exact quiet_iff.mpr hliteral
  | link id =>
    cases hs
    exact quiet_iff.mpr ((placeholders_ofList _).trans id.namesIn_chars)
  | dateTime t =>
    cases hs
    exact quiet_iff.mpr ((placeholders_ofList _).trans t.namesIn_chars)
  | null | list | map => cases hs

theorem quiet_of_castScalar? {ty : FieldType} {v w : Value} (h : v.Quiet)
    (hw : castScalar? ty v = some w) : w.Quiet := by
  cases ty with
  | boolean | integer | double | dateTime | link =>
    obtain ⟨a, -, rfl⟩ := Option.map_eq_some_iff.mp hw
    trivial
  | string =>
    obtain ⟨s, hs, rfl⟩ := Option.map_eq_some_iff.mp hw
    exact quiet_of_castString? h hs
  | embedded =>
    obtain ⟨entries, hentries, rfl⟩ := Option.map_eq_some_iff.mp hw
    cases v with
    | map entries =>
      cases hentries
      exact h
    | null | bool | int | float | string | dateTime | link | list => cases hentries
  | any | list | set | map => cases hw

theorem quiet_of_castOr {ty : FieldType} {path : String} {v w : Value} (h : v.Quiet)
    (hw : castOr ty path v (castScalar? ty v) = .ok w) : w.Quiet := by
  unfold castOr at hw
  split at hw
  · next hcast =>
    cases hw
    exact quiet_of_castScalar? h hcast
  · cases hw

/-- A cast brings no placeholders. -/
theorem quiet_of_cast {ty : FieldType} {path : String} {v w : Value} (h : v.Quiet)
    (hw : ty.cast path v = .ok w) : w.Quiet := by
  induction ty generalizing v w with
  | any =>
    unfold FieldType.cast at hw
    split at hw
    · cases hw
      exact h
    · cases hw
      exact h
  | list item ih =>
    unfold FieldType.cast at hw
    split at hw
    · cases hw
      exact h
    · obtain ⟨items, hitems, rfl⟩ := map_eq_ok.mp hw
      refine Value.quiet_list_iff.mpr fun result hmem => ?_
      obtain ⟨single, hsingle, hcast⟩ := exists_of_mapM_eq_ok hitems result hmem
      exact ih (quiet_itemsOf h single hsingle) hcast
  | set item ih =>
    unfold FieldType.cast at hw
    split at hw
    · cases hw
      exact h
    · obtain ⟨items, hitems, rfl⟩ := map_eq_ok.mp hw
      refine Value.quiet_list_iff.mpr fun result hmem => ?_
      obtain ⟨single, hsingle, hcast⟩ :=
        exists_of_mapM_eq_ok hitems result (mem_of_mem_distinctFrom hmem)
      exact ih (quiet_itemsOf h single hsingle) hcast
  | map item ih =>
    cases v with
    | map entries =>
      have hcast : (entries.mapM fun entry => (cast item path entry.2).map (entry.1, ·)).map
          Value.map = .ok w := hw
      obtain ⟨results, hresults, rfl⟩ := map_eq_ok.mp hcast
      refine Value.quiet_map_iff.mpr fun result hmem => ?_
      obtain ⟨entry, hentry, hmap⟩ := exists_of_mapM_eq_ok hresults result hmem
      obtain ⟨value, hvalue, rfl⟩ := map_eq_ok.mp hmap
      obtain ⟨hkey, hquiet⟩ := Value.quiet_map_iff.mp h entry hentry
      exact ⟨hkey, ih hquiet hvalue⟩
    | null =>
      cases hw
      exact h
    | bool | int | float | string | dateTime | link | list => cases hw
  | boolean | integer | double | string | dateTime | link | embedded =>
    unfold FieldType.cast at hw
    split at hw
    · cases hw
      exact h
    · exact quiet_of_castOr h hw

end FieldType

end DocMapper
