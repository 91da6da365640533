import DocMapper.Proofs.Contents
import DocMapper.Proofs.Digits
import DocMapper.Value.Literal
import DocMapper.Value.Tagged
/-!
# Literals are told apart

A literal that stands in a text ends where it is seen to end: a string at its closing quote, a
number before anything but a digit, a list and a map at their closing bracket. What comes first
tells the kind of value, so no two values share a literal, and nothing in a value reaches beyond
its own. Doubles and dates are left out: a whole double is written like an integer, and a date
like a string.
-/

namespace DocMapper

/-! ### Quoted strings -/

namespace Text

theorem quotedChar_append_inj {c d : Char} {x y : List Char}
    (h : quotedChar c ++ x = quotedChar d ++ y) : c = d ∧ x = y := by
  unfold quotedChar at h
  split_ifs at h <;> grind

theorem quotedChar_append_ne_quote (c : Char) (x rest : List Char) :
    quotedChar c ++ x ≠ '"' :: rest := by
  unfold quotedChar
  split_ifs <;> simp_all

/-- A quoted string ends at its own closing quote. -/
theorem quotedChars_append_inj {s t x y : List Char}
    (h : quotedChars s ++ x = quotedChars t ++ y) : s = t ∧ x = y := by
  have hbody : s.flatMap quotedChar ++ '"' :: x = t.flatMap quotedChar ++ '"' :: y := by
    simpa [quotedChars] using h
  clear h
  induction s generalizing t with
  | nil =>
    cases t with
    | nil => exact ⟨rfl, (List.cons.inj hbody).2⟩
    | cons d rest =>
      rw [List.flatMap_cons, List.append_assoc] at hbody
      exact absurd hbody.symm (quotedChar_append_ne_quote d _ _)
  | cons c rest ih =>
    rw [List.flatMap_cons, List.append_assoc] at hbody
    cases t with
    | nil => exact absurd hbody (quotedChar_append_ne_quote c _ _)
    | cons d others =>
      rw [List.flatMap_cons, List.append_assoc] at hbody
      obtain ⟨rfl, hrest⟩ := quotedChar_append_inj hbody
      obtain ⟨rfl, hafter⟩ := ih hrest
      exact ⟨rfl, hafter⟩

theorem quoted_append_inj {s t x y : String} (h : quoted s ++ x = quoted t ++ y) :
    s = t ∧ x = y := by
  have hchars : quotedChars s.toList ++ x.toList = quotedChars t.toList ++ y.toList := by
    simpa [quoted] using congrArg String.toList h
  obtain ⟨hs, hx⟩ := quotedChars_append_inj hchars
  exact ⟨String.toList_inj.mp hs, String.toList_inj.mp hx⟩

end Text

namespace Value

open Text

/-! ### The kinds of values -/

/-- The value holds no double and no date, which may be written like an integer or a string. -/
def Unmistakable (v : Value) : Prop :=
  v.Every fun
    | .float _ | .dateTime _ => False
    | _ => True

@[simp]
theorem unmistakable_list_iff {items : List Value} :
    (list items).Unmistakable ↔ ∀ v ∈ items, v.Unmistakable := by
  simp [Unmistakable]

@[simp]
theorem unmistakable_map_iff {entries : Fields Value} :
    (map entries).Unmistakable ↔ ∀ entry ∈ entries, entry.2.Unmistakable := by
  simp [Unmistakable]

/-- The kind of value whose literal begins with a character. -/
def tagOfMark? (c : Char) : Option Tag :=
  if c = '-' ∨ isAsciiDigit c then some .int
  else
    match c with
    | 'n' => some .null
    | 't' | 'f' => some .bool
    | '"' => some .string
    | '#' => some .link
    | '[' => some .list
    | '{' => some .map
    | _ => none

theorem literalChars_eq_cons {v : Value} (h : v.Unmistakable) :
    ∃ c rest, v.literalChars = c :: rest ∧ tagOfMark? c = some v.tag := by
  cases v with
  | int n =>
    rw [literalChars, RecordId.intChars]
    split
    · exact ⟨_, _, rfl, rfl⟩
    · obtain ⟨d, digits, hdigits⟩ :=
        List.exists_cons_of_ne_nil (Nat.toDigits_ne_nil (b := 10) (n := n.toInt.natAbs))
      have hall := all_isAsciiDigit_toDigits n.toInt.natAbs
      rw [hdigits, List.all_cons, Bool.and_eq_true] at hall
      exact ⟨d, digits, hdigits, if_pos (Or.inr hall.1)⟩
  | bool b => cases b <;> exact ⟨_, _, rfl, rfl⟩
  | null | string | link | list | map => exact ⟨_, _, rfl, rfl⟩
  | float | dateTime => exact absurd h id

variable {v w : Value} {x y : List Char}

/-- No value begins where a list or a map ends. -/
theorem literalChars_append_ne_cons (h : v.Unmistakable) {c : Char} (hc : tagOfMark? c = none)
    (x rest : List Char) : v.literalChars ++ x ≠ c :: rest := by
  obtain ⟨d, others, hchars, hmark⟩ := literalChars_eq_cons h
  rw [hchars, List.cons_append]
  rintro heq
  rw [(List.cons.inj heq).1, hc] at hmark
  cases hmark

theorem tag_eq_of_literalChars_append (hv : v.Unmistakable) (hw : w.Unmistakable)
    (h : v.literalChars ++ x = w.literalChars ++ y) : v.tag = w.tag := by
  obtain ⟨c, rest, hchars, hmark⟩ := literalChars_eq_cons hv
  obtain ⟨d, others, hother, hotherMark⟩ := literalChars_eq_cons hw
  rw [hchars, hother] at h
  rw [(List.cons.inj h).1, hotherMark] at hmark
  exact (Option.some.inj hmark).symm

/-! ### Literals in a text -/

/-- What stands behind an item: the other items and the end of the list. -/
def afterItem (rest : List Value) (x : List Char) : List Char :=
  match rest with
  | [] => ']' :: x
  | rest => ',' :: ' ' :: (itemChars rest ++ ']' :: x)

theorem itemChars_cons_append (item : Value) (rest : List Value) (x : List Char) :
    itemChars (item :: rest) ++ ']' :: x = item.literalChars ++ afterItem rest x := by
  cases rest <;> simp [itemChars, afterItem]

theorem endsNumber_afterItem (rest : List Value) (x : List Char) :
    EndsNumber (afterItem rest x) := by
  cases rest <;> exact endsNumber_cons (by decide) _

/-- What stands behind an entry: the other entries and the end of the map. -/
def afterEntry (rest : List (String × Value)) (x : List Char) : List Char :=
  match rest with
  | [] => '}' :: x
  | rest => ',' :: ' ' :: (entryChars rest ++ '}' :: x)

theorem entryChars_cons_append (key : String) (item : Value) (rest : List (String × Value))
    (x : List Char) :
    entryChars ((key, item) :: rest) ++ '}' :: x =
      quotedChars key.toList ++ ':' :: ' ' :: (item.literalChars ++ afterEntry rest x) := by
  cases rest <;> simp [entryChars, afterEntry]

theorem endsNumber_afterEntry (rest : List (String × Value)) (x : List Char) :
    EndsNumber (afterEntry rest x) := by
  cases rest <;> exact endsNumber_cons (by decide) _

mutual

theorem literalChars_append_inj {v w : Value} {x y : List Char} (hv : v.Unmistakable)
    (hw : w.Unmistakable) (hx : EndsNumber x) (hy : EndsNumber y)
    (h : v.literalChars ++ x = w.literalChars ++ y) : v = w ∧ x = y := by
  -- The induction is on the first value; the second is of its kind, since both begin alike.
  have htag := tag_eq_of_literalChars_append hv hw h
  match v with
  | .null =>
    cases w <;> cases htag
    exact ⟨rfl, List.append_cancel_left h⟩
  | .bool a =>
    cases w <;> cases htag
    next b => cases a <;> cases b <;> simp_all [literalChars]
  | .int n =>
    cases w <;> cases htag
    obtain ⟨hint, hrest⟩ := RecordId.intChars_append_inj hx hy h
    exact ⟨congrArg int (Int64.toInt_inj.mp hint), hrest⟩
  | .string s =>
    cases w <;> cases htag
    obtain ⟨hchars, hrest⟩ := quotedChars_append_inj h
    exact ⟨congrArg string (String.toList_inj.mp hchars), hrest⟩
  | .link id =>
    cases w <;> cases htag
    obtain ⟨rfl, hrest⟩ := RecordId.chars_append_inj hx hy h
    exact ⟨rfl, hrest⟩
  | .list items =>
    cases w <;> cases htag
    next others =>
      have hitems : itemChars items ++ ']' :: x = itemChars others ++ ']' :: y := by
        simpa [literalChars] using h
      obtain ⟨rfl, hrest⟩ :=
        itemChars_append_inj (unmistakable_list_iff.mp hv) (unmistakable_list_iff.mp hw) hitems
      exact ⟨rfl, hrest⟩
  | .map entries =>
    cases w <;> cases htag
    next others =>
      have hentries : entryChars entries ++ '}' :: x = entryChars others ++ '}' :: y := by
        simpa [literalChars] using h
      obtain ⟨rfl, hrest⟩ :=
        entryChars_append_inj (unmistakable_map_iff.mp hv) (unmistakable_map_iff.mp hw) hentries
      exact ⟨rfl, hrest⟩
  | .float _ | .dateTime _ => exact absurd hv id

theorem itemChars_append_inj {items others : List Value} {x y : List Char}
    (hitems : ∀ v ∈ items, v.Unmistakable) (hothers : ∀ v ∈ others, v.Unmistakable)
    (h : itemChars items ++ ']' :: x = itemChars others ++ ']' :: y) :
    items = others ∧ x = y := by
  match items, others with
  | [], [] => exact ⟨rfl, (List.cons.inj h).2⟩
  | [], w :: ws =>
    rw [itemChars_cons_append] at h
    exact absurd h.symm (literalChars_append_ne_cons (hothers w List.mem_cons_self) rfl _ _)
  | v :: vs, [] =>
    rw [itemChars_cons_append] at h
    exact absurd h (literalChars_append_ne_cons (hitems v List.mem_cons_self) rfl _ _)
  | v :: vs, w :: ws =>
    rw [itemChars_cons_append, itemChars_cons_append] at h
    obtain ⟨hv, hvs⟩ := List.forall_mem_cons.mp hitems
    obtain ⟨hw, hws⟩ := List.forall_mem_cons.mp hothers
    obtain ⟨rfl, hafter⟩ := literalChars_append_inj hv hw (endsNumber_afterItem vs x)
      (endsNumber_afterItem ws y) h
    match vs, ws with
    | [], [] => exact ⟨rfl, (List.cons.inj hafter).2⟩
    | [], _ :: _ | _ :: _, [] => simp [afterItem] at hafter
    | second :: later, _ :: _ =>
      obtain ⟨hrest, hxy⟩ := itemChars_append_inj hvs hws (by simpa [afterItem] using hafter)
      exact ⟨congrArg (v :: ·) hrest, hxy⟩

theorem entryChars_append_inj {entries others : List (String × Value)} {x y : List Char}
    (hentries : ∀ entry ∈ entries, entry.2.Unmistakable)
    (hothers : ∀ entry ∈ others, entry.2.Unmistakable)
    (h : entryChars entries ++ '}' :: x = entryChars others ++ '}' :: y) :
    entries = others ∧ x = y := by
  match entries, others with
  | [], [] => exact ⟨rfl, (List.cons.inj h).2⟩
  | [], (key, w) :: ws =>
    rw [entryChars_cons_append] at h
    simp [entryChars, quotedChars] at h
  | (key, v) :: vs, [] =>
    rw [entryChars_cons_append] at h
    simp [entryChars, quotedChars] at h
  | (key, v) :: vs, (other, w) :: ws =>
    rw [entryChars_cons_append, entryChars_cons_append] at h
    obtain ⟨hkey, hcolon⟩ := quotedChars_append_inj h
    obtain ⟨hv, hvs⟩ := List.forall_mem_cons.mp hentries
    obtain ⟨hw, hws⟩ := List.forall_mem_cons.mp hothers
    obtain ⟨rfl, hafter⟩ := literalChars_append_inj hv hw (endsNumber_afterEntry vs x)
      (endsNumber_afterEntry ws y) (List.cons.inj (List.cons.inj hcolon).2).2
    obtain rfl := String.toList_inj.mp hkey
    match vs, ws with
    | [], [] => exact ⟨rfl, (List.cons.inj hafter).2⟩
    | [], _ :: _ | _ :: _, [] => simp [afterEntry] at hafter
    | second :: later, _ :: _ =>
      obtain ⟨hrest, hxy⟩ := entryChars_append_inj hvs hws (by simpa [afterEntry] using hafter)
      exact ⟨congrArg ((key, v) :: ·) hrest, hxy⟩

end

/-- Values without doubles and dates have literals of their own, also in front of any text that does
not go on with a digit; and a quoted string ends where it ends whatever is in it and behind it. -/
theorem literal_unambiguous :
    (∀ v w : Value, v.Unmistakable → w.Unmistakable → v.literal = w.literal → v = w) ∧
      (∀ s t x y : String, quoted s ++ x = quoted t ++ y → s = t ∧ x = y) ∧
      ∀ v w : Value, v.Unmistakable → w.Unmistakable →
        ∀ x y : String, EndsNumber x.toList → EndsNumber y.toList →
          v.literal ++ x = w.literal ++ y → v = w ∧ x = y := by
  refine ⟨fun v w hv hw h => ?_, fun s t x y h => quoted_append_inj h,
    fun v w hv hw x y hx hy h => ?_⟩
  · have hchars : v.literalChars ++ [] = w.literalChars ++ [] :=
      congrArg (· ++ []) (String.ofList_injective h)
    exact (literalChars_append_inj hv hw endsNumber_nil endsNumber_nil hchars).1
  · have hchars : v.literalChars ++ x.toList = w.literalChars ++ y.toList := by
      simpa [literal] using congrArg String.toList h
    obtain ⟨rfl, hrest⟩ := literalChars_append_inj hv hw hx hy hchars
    exact ⟨rfl, String.toList_inj.mp hrest⟩

/-- A string that holds the mark between two items is not two items. -/
theorem literal_unambiguous_separator :
    (list [string "a\", \"b", link ⟨12, -5⟩]).literal ≠
        (list [string "a", string "b", link ⟨12, -5⟩]).literal ∧
      map (Fields.put [("b", null)] "a\n" (int 1)) = map [("a\n", int 1), ("b", null)] := by
  have hwhole : (list [string "a\", \"b", link ⟨12, -5⟩]).Unmistakable := by
    simp [Unmistakable, Every, EveryItem]
  have hparts : (list [string "a", string "b", link ⟨12, -5⟩]).Unmistakable := by
    simp [Unmistakable, Every, EveryItem]
  have hmap : (map [("a\n", int 1), ("b", null)]).Unmistakable := by
    simp [Unmistakable, Every, EveryEntry]
  have hput : (map (Fields.put [("b", null)] "a\n" (int 1))).literal =
      (map [("a\n", int 1), ("b", null)]).literal := by decide
  refine ⟨fun h => ?_, literal_unambiguous.1 _ _ hmap hmap hput⟩
  have heq := literal_unambiguous.1 _ _ hwhole hparts h
  simp at heq

end Value

end DocMapper
