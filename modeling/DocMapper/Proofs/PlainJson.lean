import DocMapper.Proofs.Contents
import DocMapper.Proofs.Digits
import DocMapper.Proofs.FieldType
import DocMapper.Value.Json
/-!
# Typed values and plain data

A plain data tree does not tell a date or a link from a string. A type that names what it holds
tells them apart again: a value that conforms to it comes back from its data tree by a cast. What a
cast gives conforms, so casting, writing and casting again is the same as casting once.
-/

namespace DocMapper

namespace Value

theorem ofJson_toJson_list (items : List Value) :
    ofJson (list items).toJson = list (items.map fun v => ofJson v.toJson) := by
  have hitems : ∀ items, itemsOfJson (itemsToJson items) = items.map fun v => ofJson v.toJson := by
    intro items
    induction items with
    | nil => rfl
    | cons v rest ih => rw [itemsToJson, itemsOfJson, ih, List.map_cons]
  rw [toJson, ofJson, hitems]

theorem ofJson_toJson_map (entries : Fields Value) :
    ofJson (map entries).toJson =
      map (entries.map fun entry => (entry.1, ofJson entry.2.toJson)) := by
  have hentries : ∀ entries, entriesOfJson (entriesToJson entries) =
      entries.map fun entry => (entry.1, ofJson entry.2.toJson) := by
    intro entries
    induction entries with
    | nil => rfl
    | cons entry rest ih => rw [entriesToJson, entriesOfJson, ih, List.map_cons]
  rw [toJson, ofJson, hentries]

end Value

namespace FieldType

/-- The type names what it holds at every depth. -/
def isConcrete : FieldType → Bool
  | .any | .embedded => false
  | .list item | .set item | .map item => item.isConcrete
  | _ => true

/-- A list without equal items has nothing to leave out. -/
theorem distinctFrom_eq_self {seen items : List Value}
    (hseen : ∀ a ∈ seen, ∀ b ∈ items, a.eqv b = false)
    (hitems : items.Pairwise fun a b => a.eqv b = false) : distinctFrom seen items = items := by
  induction items generalizing seen with
  | nil => rfl
  | cons v rest ih =>
    obtain ⟨hv, hrest⟩ := List.pairwise_cons.mp hitems
    have hnew : v.occursIn seen = false := by
      simpa [Value.occursIn] using fun a ha => hseen a ha v List.mem_cons_self
    have hlater : ∀ a ∈ seen ++ [v], ∀ b ∈ rest, a.eqv b = false := by
      intro a ha b hb
      rcases List.mem_append.mp ha with ha | ha
      · exact hseen a ha b (List.mem_cons_of_mem v hb)
      · exact List.mem_singleton.mp ha ▸ hv b hb
    rw [distinctFrom, hnew, ih hlater hrest]
    rfl

theorem distinct_eq_self {items : List Value}
    (h : items.Pairwise fun a b => a.eqv b = false) : distinct items = items :=
  distinctFrom_eq_self (fun _ => nofun) h

variable {ty : FieldType} {v : Value}

/-- A value that conforms to a type is recovered from plain data by the cast to it. -/
theorem cast_ofJson_toJson (hconcrete : ty.isConcrete = true) (hconforms : ty.Conforms v)
    (hfinite : v.Finite) (path : String) : ty.cast path (.ofJson v.toJson) = .ok v := by
  induction ty generalizing v with
  | any | embedded => cases hconcrete
  | list item ih =>
    cases v with
    | null => rfl
    | list items =>
      have hitems := Success.mapM_map_eq_ok (f := item.cast path) fun v hmem =>
        ih hconcrete (hconforms v hmem) (Value.finite_list_iff.mp hfinite v hmem)
      rw [Value.ofJson_toJson_list]
      exact congrArg (Except.map Value.list) hitems
    | bool | int | float | string | dateTime | link | map => cases hconforms
  | set item ih =>
    cases v with
    | null => rfl
    | list items =>
      have hitems := Success.mapM_map_eq_ok (f := item.cast path) fun v hmem =>
        ih hconcrete (hconforms.1 v hmem) (Value.finite_list_iff.mp hfinite v hmem)
      rw [Value.ofJson_toJson_list]
      -- The items come back before equal ones are left out, and no two of them are equal.
      calc (set item).cast path (.list (items.map fun v => .ofJson v.toJson))
          = ((items.map fun v => .ofJson v.toJson).mapM (item.cast path)).map
              fun items => .list (distinct items) := rfl
        _ = .ok (.list (distinct items)) := by rw [hitems]; rfl
        _ = .ok (.list items) := by rw [distinct_eq_self hconforms.2]
    | bool | int | float | string | dateTime | link | map => cases hconforms
  | map item ih =>
    cases v with
    | null => rfl
    | map entries =>
      have hentries : (entries.map fun entry => (entry.1, Value.ofJson entry.2.toJson)).mapM
          (fun entry => (item.cast path entry.2).map (entry.1, ·)) = .ok entries := by
        refine Success.mapM_map_eq_ok fun entry hmem => ?_
        rw [ih hconcrete (hconforms entry hmem) (Value.finite_map_iff.mp hfinite entry hmem)]
        rfl
      rw [Value.ofJson_toJson_map]
      exact congrArg (Except.map Value.map) hentries
    | bool | int | float | string | dateTime | link | list => cases hconforms
  | boolean | string =>
    cases v with
    | null | bool | string => first | rfl | cases hconforms
    | int | float | dateTime | link | list | map => cases hconforms
  | integer =>
    cases v with
    | null => rfl
    | int n => rw [Value.toJson, Value.ofJson, Number.int64?_toInt]; rfl
    | bool | float | string | dateTime | link | list | map => cases hconforms
  | double =>
    cases v with
    | null => rfl
    | float d => rw [Value.toJson, if_pos (Value.finite_float_iff.mp hfinite)]; rfl
    | bool | int | string | dateTime | link | list | map => cases hconforms
  | dateTime =>
    cases v with
    | null => rfl
    | dateTime t =>
      simp [Value.toJson, Value.ofJson, cast, Value.isNull, castScalar?, castDateTime?,
        DateTime.ofText?_text, castOr]
    | bool | int | float | string | link | list | map => cases hconforms
  | link =>
    cases v with
    | null => rfl
    | link id =>
      simp [Value.toJson, Value.ofJson, cast, Value.isNull, castScalar?, castLink?,
        RecordId.ofText?_text, castOr]
    | bool | int | float | string | dateTime | list | map => cases hconforms

/-- What a cast to a concrete type gave is not changed by plain data and another cast. -/
theorem cast_toJson_of_cast {path : String} {raw : Value} (hconcrete : ty.isConcrete = true)
    (hcast : ty.cast path raw = .ok v) (hfinite : v.Finite) (other : String) :
    ty.cast other (.ofJson v.toJson) = .ok v :=
  cast_ofJson_toJson hconcrete (conforms_of_cast hcast) hfinite other

/-- Sets of links with null in them, below the names of a map. -/
theorem cast_toJson_of_cast_links :
    let raw : Value := .map [("a", .list [.string "#1:-2", .null, .link ⟨1, -2⟩]),
      ("b", .string "3:4")]
    let v : Value := .map [("a", .list [.link ⟨1, -2⟩, .null]), ("b", .list [.link ⟨3, 4⟩])]
    (map (set link)).cast "seen" raw = .ok v ∧
      (map (set link)).cast "seen" (.ofJson v.toJson) = .ok v := by
  intro raw v
  have hcast : (map (set link)).cast "seen" raw = .ok v := rfl
  refine ⟨hcast, cast_toJson_of_cast rfl hcast ?_ "seen"⟩
  simp [v, Value.Finite, Value.Every, Value.EveryItem, Value.EveryEntry]

end FieldType

end DocMapper
