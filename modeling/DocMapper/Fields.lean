/-!
Named entries in key order. Writing keeps a sorted list sorted, and reading after writing follows
the usual laws on any list, sorted or not.
-/

namespace DocMapper

/-- Entries by name, listed by increasing name. -/
abbrev Fields (α : Type) := List (String × α)

namespace Fields

variable {α β : Type}

def get? (fields : Fields α) (key : String) : Option α :=
  match fields with
  | [] => none
  | (k, a) :: rest => if k = key then some a else get? rest key

def has (fields : Fields α) (key : String) : Bool :=
  (get? fields key).isSome

/-- Writes an entry, replacing the one of the same name. -/
def put (fields : Fields α) (key : String) (a : α) : Fields α :=
  match fields with
  | [] => [(key, a)]
  | (k, b) :: rest =>
    if key < k then (key, a) :: (k, b) :: rest
    else if k = key then (key, a) :: rest
    else (k, b) :: put rest key a

def drop (fields : Fields α) (key : String) : Fields α :=
  fields.filter fun entry => entry.1 ≠ key

def merge (fields more : Fields α) : Fields α :=
  more.foldl (fun acc entry => put acc entry.1 entry.2) fields

/-- The entries of a list; of two with one name the later stays. -/
def ofList (entries : List (String × α)) : Fields α :=
  merge [] entries

def names (fields : Fields α) : List String :=
  fields.map Prod.fst

def mapValues (f : α → β) (fields : Fields α) : Fields β :=
  fields.map fun entry => (entry.1, f entry.2)

def Sorted (fields : Fields α) : Prop :=
  (names fields).Pairwise (· < ·)

@[simp]
theorem get?_nil (key : String) : get? ([] : Fields α) key = none := rfl

theorem get?_cons (k : String) (a : α) (rest : Fields α) (key : String) :
    get? ((k, a) :: rest) key = if k = key then some a else get? rest key := rfl

@[simp]
theorem get?_put_self (fields : Fields α) (key : String) (a : α) :
    get? (put fields key a) key = some a := by
  induction fields with
  | nil => simp [put, get?]
  | cons entry rest ih =>
    obtain ⟨k, b⟩ := entry
    by_cases hlt : key < k
    · simp [put, hlt, get?]
    · by_cases heq : k = key
      · simp [put, heq, get?]
      · simp [put, hlt, heq, get?, ih]

theorem get?_put_of_ne (fields : Fields α) {key other : String} (a : α) (h : other ≠ key) :
    get? (put fields key a) other = get? fields other := by
  induction fields with
  | nil => simp [put, get?, Ne.symm h]
  | cons entry rest ih =>
    obtain ⟨k, b⟩ := entry
    by_cases hlt : key < k
    · simp [put, hlt, get?, Ne.symm h]
    · by_cases heq : k = key
      · subst heq; simp [put, get?, Ne.symm h]
      · simp [put, hlt, heq, get?, ih]

theorem put_put (fields : Fields α) (key : String) (a b : α) :
    put (put fields key a) key b = put fields key b := by
  induction fields with
  | nil => simp [put]
  | cons entry rest ih =>
    obtain ⟨k, c⟩ := entry
    by_cases hlt : key < k
    · simp [put, hlt]
    · by_cases heq : k = key
      · simp [put, heq]
      · simp [put, hlt, heq, ih]

@[simp]
theorem get?_drop_self (fields : Fields α) (key : String) : get? (drop fields key) key = none := by
  induction fields with
  | nil => rfl
  | cons entry rest ih =>
    obtain ⟨k, b⟩ := entry
    by_cases heq : k = key
    · simpa [drop, heq] using ih
    · simpa [drop, heq, get?] using ih

theorem get?_drop_of_ne (fields : Fields α) {key other : String} (h : other ≠ key) :
    get? (drop fields key) other = get? fields other := by
  induction fields with
  | nil => rfl
  | cons entry rest ih =>
    obtain ⟨k, b⟩ := entry
    by_cases heq : k = key
    · simpa [drop, heq, get?, Ne.symm h] using ih
    · simpa [drop, heq, get?] using congrArg (fun r => if k = other then some b else r) ih

end Fields

end DocMapper
