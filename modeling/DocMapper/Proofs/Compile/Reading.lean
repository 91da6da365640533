import DocMapper.Compile.Fragment
import DocMapper.Config
import Mathlib.Logic.Basic
/-!
# Placeholders in a text

A placeholder is a colon with a name behind it. What a caller writes is quiet if it has none. Texts
are put together with separators between them, and each separator ends any name before it and is no
colon, so the placeholders of the whole are those of its pieces.
-/

namespace DocMapper.Inline

/-- The names behind colons, from left to right. -/
def namesIn : List Char → List String
  | [] => []
  | c :: rest =>
    if c = ':' ∧ nameAt rest ≠ [] then String.ofList (nameAt rest) :: namesIn rest
    else namesIn rest

def placeholders (text : String) : List String :=
  namesIn text.toList

/-- No colon stands before a letter. -/
def Quiet (text : String) : Prop :=
  ∀ before c after, text.toList = before ++ ':' :: c :: after → Text.isAsciiLetter c = false

theorem nameAt_eq_nil_iff {cs : List Char} :
    nameAt cs = [] ↔ ∀ c ∈ cs.head?, Text.isAsciiLetter c = false := by
  cases cs with
  | nil => simp [nameAt]
  | cons c rest => simp [nameAt]

/-- A name ends where no character of a name follows. -/
theorem nameAt_append {b : List Char} (hb : ∀ c ∈ b.head?, Text.isNameChar c = false)
    (a : List Char) : nameAt (a ++ b) = nameAt a := by
  cases a with
  | nil =>
    refine nameAt_eq_nil_iff.mpr fun c hc => ?_
    have hname := hb c hc
    simp only [Text.isNameChar, Bool.or_eq_false_iff] at hname
    exact hname.1.1
  | cons c rest =>
    have htail : b.takeWhile Text.isNameChar = [] := by
      cases b with
      | nil => rfl
      | cons d b => rw [List.takeWhile_cons, hb d rfl, if_neg Bool.false_ne_true]
    rw [List.cons_append, nameAt, nameAt, List.takeWhile_append, htail]
    split
    · split
      · next hlength =>
        rw [List.append_nil, (List.takeWhile_prefix Text.isNameChar).eq_of_length hlength]
      · rfl
    · rfl

theorem namesIn_append {b : List Char} (hb : ∀ c ∈ b.head?, Text.isNameChar c = false)
    (a : List Char) : namesIn (a ++ b) = namesIn a ++ namesIn b := by
  induction a with
  | nil => rfl
  | cons c rest ih =>
    rw [List.cons_append, namesIn, namesIn, nameAt_append hb, ih]
    split <;> rfl

theorem namesIn_cons_of_ne {c : Char} (hc : c ≠ ':') (rest : List Char) :
    namesIn (c :: rest) = namesIn rest := by
  rw [namesIn, if_neg fun h => hc h.1]

theorem namesIn_append_of_not_mem {a : List Char} (h : ':' ∉ a) (b : List Char) :
    namesIn (a ++ b) = namesIn b := by
  induction a with
  | nil => rfl
  | cons c rest ih =>
    rw [List.mem_cons, not_or] at h
    rw [List.cons_append, namesIn_cons_of_ne (Ne.symm h.1), ih h.2]

theorem namesIn_of_not_mem {cs : List Char} (h : ':' ∉ cs) : namesIn cs = [] := by
  rw [← List.append_nil cs, namesIn_append_of_not_mem h]
  rfl

theorem namesIn_eq_nil_iff {cs : List Char} :
    namesIn cs = [] ↔
      ∀ before c after, cs = before ++ ':' :: c :: after → Text.isAsciiLetter c = false := by
  induction cs with
  | nil => simp [namesIn]
  | cons d rest ih =>
    have hhead : ¬ (d = ':' ∧ nameAt rest ≠ []) ↔
        ∀ c after, d :: rest = ':' :: c :: after → Text.isAsciiLetter c = false := by
      rw [not_and, not_not, nameAt_eq_nil_iff]
      constructor
      · rintro h c after heq
        cases heq
        exact h rfl c rfl
      · rintro h rfl c hc
        cases rest with
        | nil => cases hc
        | cons e rest =>
          cases hc
          exact h c rest rfl
    constructor
    · intro hnil before c after heq
      rw [namesIn] at hnil
      split at hnil
      · cases hnil
      · next hnone =>
        cases before with
        | nil => exact hhead.mp hnone c after heq
        | cons e before => exact ih.mp hnil before c after (List.cons.inj heq).2
    · intro hquiet
      rw [namesIn, if_neg (hhead.mpr fun c after heq => hquiet [] c after heq)]
      exact ih.mpr fun before c after heq => hquiet (d :: before) c after (by rw [heq]; rfl)

theorem quiet_iff {text : String} : Quiet text ↔ placeholders text = [] :=
  namesIn_eq_nil_iff.symm

instance (text : String) : Decidable (Quiet text) :=
  decidable_of_iff _ quiet_iff.symm

theorem placeholders_ofList (cs : List Char) : placeholders (String.ofList cs) = namesIn cs := by
  rw [placeholders, String.toList_ofList]

/-- There is nothing to be filled into a quiet text. -/
theorem fill_of_quiet {text : String} (h : Quiet text) (params : Fields Value) :
    fill text params = text := by
  have hcopy : ∀ cs, namesIn cs = [] → fillFrom params 0 cs = cs := by
    intro cs hnone
    induction cs with
    | nil => rfl
    | cons c rest ih =>
      rw [namesIn] at hnone
      split at hnone
      · cases hnone
      · next hplain =>
        rw [fillFrom]
        split
        · next hcolon =>
          have hname : nameAt rest = [] := not_not.mp fun hne => hplain ⟨hcolon, hne⟩
          have hkeep : replacement params [] = [':'] := by
            rw [replacement]
            split <;> rfl
          rw [hname, hkeep, List.length_nil, ih hnone, hcolon]
          rfl
        · rw [ih hnone]
  rw [fill, hcopy _ (quiet_iff.mp h), String.ofList_toList]

/-! ### Separators -/

/-- A text that keeps apart what is written before it and after it. -/
def Parts (separator : String) : Prop :=
  ∀ a b, placeholders (a ++ separator ++ b) = placeholders a ++ placeholders b

/-- A character that ends any name and is no colon. -/
def isBreak (c : Char) : Bool :=
  c != ':' && !Text.isNameChar c

theorem namesIn_append_break {c : Char} (hc : isBreak c = true) (a b : List Char) :
    namesIn (a ++ c :: b) = namesIn a ++ namesIn b := by
  simp only [isBreak, Bool.and_eq_true, bne_iff_ne, Bool.not_eq_true'] at hc
  rw [namesIn_append, namesIn_cons_of_ne hc.1]
  rintro d hd
  cases hd
  exact hc.2

/-- No placeholder, and a break at the end. -/
def Closed (text : String) : Prop :=
  Quiet text ∧ text.toList.getLast?.map isBreak = some true

instance (text : String) : Decidable (Closed text) :=
  inferInstanceAs (Decidable (_ ∧ _))

/-- A closed text can be written before any other. -/
theorem Closed.before {first : String} (h : Closed first) (text : String) :
    placeholders (first ++ text) = placeholders text := by
  obtain ⟨hquiet, hends⟩ := h
  obtain ⟨last, hlast, hbreak⟩ := Option.map_eq_some_iff.mp hends
  obtain ⟨middle, hchars⟩ := List.getLast?_eq_some_iff.mp hlast
  have hmiddle : namesIn middle = [] := by
    have hnone := quiet_iff.mp hquiet
    rw [placeholders, hchars, namesIn_append_break hbreak] at hnone
    exact (List.append_eq_nil_iff.mp hnone).1
  have hassoc : (first ++ text).toList = middle ++ last :: text.toList := by
    simp [String.toList_append, hchars]
  rw [placeholders, hassoc, namesIn_append_break hbreak, hmiddle]
  rfl

theorem parts_of_closed {separator : String} (h : Closed separator)
    (hfirst : separator.toList.head?.map isBreak = some true) : Parts separator := by
  intro a b
  cases hchars : separator.toList with
  | nil =>
    rw [hchars] at hfirst
    cases hfirst
  | cons c rest =>
    rw [hchars] at hfirst
    have hbreak : isBreak c = true := Option.some.inj hfirst
    have hwhole : placeholders (separator ++ b) = namesIn (rest ++ b.toList) := by
      rw [placeholders, String.toList_append, hchars]
      exact namesIn_append_break hbreak [] _
    have hassoc : (a ++ separator ++ b).toList = a.toList ++ c :: (rest ++ b.toList) := by
      simp [String.toList_append, hchars]
    rw [placeholders, hassoc, namesIn_append_break hbreak, ← hwhole, h.before]
    rfl

variable {separator : String}

theorem Parts.after (h : Parts separator) (text : String) :
    placeholders (text ++ separator) = placeholders text := by
  have hparts := h text ""
  rwa [String.append_empty, show placeholders "" = [] from rfl, List.append_nil] at hparts

theorem Parts.intercalate (h : Parts separator) (items : List String) :
    placeholders (separator.intercalate items) = items.flatMap placeholders := by
  induction items with
  | nil => rfl
  | cons first rest ih =>
    cases rest with
    | nil => simp
    | cons second rest =>
      rw [String.intercalate_cons_cons, h, ih]
      rfl

theorem parts_blank : Parts " " :=
  parts_of_closed (by decide) (by decide)

theorem parts_comma : Parts ", " :=
  parts_of_closed (by decide) (by decide)

theorem parts_equals : Parts " = " :=
  parts_of_closed (by decide) (by decide)

end DocMapper.Inline
