import DocMapper.Json
import DocMapper.Proofs.Fields
import DocMapper.Value
/-!
# What is in a value

A property may be asked of a value and of everything in it: that the names of its maps are in order,
that its doubles are finite. Data trees with names in order are not changed by sorting them.
-/

namespace DocMapper

namespace Value

mutual

/-- A property of a value and of all values in it. -/
def Every (p : Value → Prop) : Value → Prop
  | .list items => p (.list items) ∧ EveryItem p items
  | .map entries => p (.map entries) ∧ EveryEntry p entries
  | v => p v

def EveryItem (p : Value → Prop) : List Value → Prop
  | [] => True
  | v :: rest => v.Every p ∧ EveryItem p rest

def EveryEntry (p : Value → Prop) : List (String × Value) → Prop
  | [] => True
  | (_, v) :: rest => v.Every p ∧ EveryEntry p rest

end

variable {p : Value → Prop} {items : List Value} {entries : Fields Value}

@[simp]
theorem every_list_iff :
    (list items).Every p ↔ p (list items) ∧ ∀ v ∈ items, v.Every p := by
  have hitems : ∀ items, EveryItem p items ↔ ∀ v ∈ items, v.Every p := by
    intro items
    induction items with
    | nil => simp [EveryItem]
    | cons v rest ih => simp [EveryItem, ih]
  rw [Every, hitems]

@[simp]
theorem every_map_iff :
    (map entries).Every p ↔ p (map entries) ∧ ∀ entry ∈ entries, entry.2.Every p := by
  have hentries : ∀ entries, EveryEntry p entries ↔ ∀ entry ∈ entries, entry.2.Every p := by
    intro entries
    induction entries with
    | nil => simp [EveryEntry]
    | cons entry rest ih => simp [EveryEntry, ih]
  rw [Every, hentries]

/-- The names of every map are in order. -/
def Ordered (v : Value) : Prop :=
  v.Every fun
    | .map entries => Fields.Sorted entries
    | _ => True

/-- Every double is a number. -/
def Finite (v : Value) : Prop :=
  v.Every fun
    | .float d => d.isFinite = true
    | _ => True

@[simp]
theorem ordered_list_iff : (list items).Ordered ↔ ∀ v ∈ items, v.Ordered := by
  simp [Ordered]

@[simp]
theorem ordered_map_iff :
    (map entries).Ordered ↔ Fields.Sorted entries ∧ ∀ entry ∈ entries, entry.2.Ordered := by
  simp [Ordered]

@[simp]
theorem finite_float_iff {d : Double} : (float d).Finite ↔ d.isFinite = true :=
  Iff.rfl

@[simp]
theorem finite_list_iff : (list items).Finite ↔ ∀ v ∈ items, v.Finite := by
  simp [Finite]

@[simp]
theorem finite_map_iff : (map entries).Finite ↔ ∀ entry ∈ entries, entry.2.Finite := by
  simp [Finite]

end Value

namespace Json

mutual

/-- The names of every object are in order. -/
def Ordered : Json → Prop
  | .arr items => AllOrdered items
  | .obj entries => Fields.Sorted entries ∧ EntriesOrdered entries
  | _ => True

def AllOrdered : List Json → Prop
  | [] => True
  | json :: rest => json.Ordered ∧ AllOrdered rest

def EntriesOrdered : List (String × Json) → Prop
  | [] => True
  | (_, json) :: rest => json.Ordered ∧ EntriesOrdered rest

end

mutual

theorem Ordered.sorted_eq_self {json : Json} (h : json.Ordered) : json.sorted = json := by
  match json with
  | .arr items =>
    rw [Ordered] at h
    rw [sorted, AllOrdered.sortedItems_eq_self h]
  | .obj entries =>
    rw [Ordered] at h
    rw [sorted, EntriesOrdered.sortedEntries_eq_self h.2, h.1.ofList_eq_self]
  | .null | .bool _ | .int _ | .float _ | .str _ => simp [sorted]

theorem AllOrdered.sortedItems_eq_self {items : List Json} (h : AllOrdered items) :
    sortedItems items = items := by
  match items with
  | [] => rfl
  | json :: rest =>
    rw [AllOrdered] at h
    rw [sortedItems, Ordered.sorted_eq_self h.1, AllOrdered.sortedItems_eq_self h.2]

theorem EntriesOrdered.sortedEntries_eq_self {entries : List (String × Json)}
    (h : EntriesOrdered entries) : sortedEntries entries = entries := by
  match entries with
  | [] => rfl
  | (key, json) :: rest =>
    rw [EntriesOrdered] at h
    rw [sortedEntries, Ordered.sorted_eq_self h.1, EntriesOrdered.sortedEntries_eq_self h.2]

end

end Json

end DocMapper
