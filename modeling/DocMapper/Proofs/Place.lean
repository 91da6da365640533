import DocMapper.Proofs.Contents
import DocMapper.Proofs.Path
/-!
# Places

A value is read, changed where it stands, written and removed along its path, and each of these goes
down in its own way. They agree: what can be read stands in a place, to change it there is to write
at its path, and a removal leaves nothing or null behind, and all as it was where nothing was.
-/

namespace DocMapper

/-- A value where it stands, and what becomes of the whole if another one stands there. -/
structure Place (α : Type) where
  value : Value
  put : Value → α

namespace Place

variable {α : Type}

def down? (place : Place α) (segment : String) : Option (Place α) :=
  match place.value with
  | .map entries =>
    (Fields.get? entries segment).map fun v =>
      ⟨v, fun w => place.put (.map (Fields.put entries segment w))⟩
  | .list items =>
    (Number.readIndex? segment.toList).bind fun index => (items[index]?).map fun v =>
      ⟨v, fun w => place.put (.list (items.set index w))⟩
  | _ => none

theorem down?_eq (place : Place α) (segment : String) :
    place.down? segment = (place.value.child? segment).map fun v =>
      ⟨v, fun w => place.put (place.value.withChild segment w)⟩ := by
  obtain ⟨slot, put⟩ := place
  cases slot with
  | list items =>
    rw [down?, Value.child?]
    dsimp only
    cases hindex : Number.readIndex? segment.toList with
    | none => rfl
    | some index =>
      by_cases hlt : index < items.length
      · have hitem : Value.itemIndex? items segment = some index := by
          simp [Value.itemIndex?, hindex, hlt]
        simp [Value.withChild, hitem]
      · simp [hlt]
  | _ => rfl

theorem foldlM_down? (place : Place α) (segs : List String) :
    segs.foldlM down? place = (place.value.atSegments? segs).map fun v =>
      ⟨v, fun w => place.put (Value.write (some w) segs place.value)⟩ := by
  induction segs generalizing place with
  | nil => rfl
  | cons segment rest ih =>
    rw [List.foldlM_cons, down?_eq, Value.atSegments?]
    cases hchild : place.value.child? segment with
    | none => rfl
    | some child =>
      rw [Option.map_some]
      refine (ih _).trans ?_
      simp [Value.write_cons, hchild]

end Place

/-- The place of a path among the values of a document. -/
def placeAt? (values : Fields Value) (path : String) : Option (Place (Fields Value)) :=
  match segments path with
  | [] => none
  | head :: rest => do
    let top ← (Fields.get? values head).map fun v => ⟨v, Fields.put values head⟩
    rest.foldlM Place.down? top

/-- The value at a path: what stands before its first dot is looked up among the values, and what
stands behind it below the value that was found. -/
def lookUp? (values : Fields Value) (path : String) : Option Value :=
  match Text.cutAt? '.' path.toList with
  | some (head, rest) =>
    (Fields.get? values (String.ofList head)).bind (·.atPath? (String.ofList rest))
  | none => Fields.get? values path

theorem lookUp?_eq (values : Fields Value) (path : String) :
    lookUp? values path = valueAt? values path := by
  rw [lookUp?, valueAt?, segments, Text.split, Text.splitChars_eq_cutAt?]
  cases Text.cutAt? '.' path.toList with
  | none => cases hget : Fields.get? values path <;> simp [hget, Value.atSegments?]
  | some parts => simp [Value.atPath?, segments, Text.split]

/-- To put a value into a place is to write it at the path of the place. -/
theorem placeAt?_eq (values : Fields Value) (path : String) :
    placeAt? values path = (valueAt? values path).map fun v =>
      ⟨v, fun w => writeAt values path (some w)⟩ := by
  unfold placeAt? valueAt? writeAt
  cases segments path with
  | nil => rfl
  | cons head rest =>
    dsimp only
    cases hget : Fields.get? values head with
    | none => rfl
    | some top =>
      refine (Place.foldlM_down? _ rest).trans ?_
      simp [Value.writeEntry, hget]

theorem map_value_placeAt? (values : Fields Value) (path : String) :
    (placeAt? values path).map Place.value = valueAt? values path := by
  rw [placeAt?_eq, Option.map_map]
  exact Option.map_id'

/-! ### What is there already -/

theorem Fields.Sorted.put_eq_self {α : Type} {fields : Fields α} (h : Sorted fields) {key : String}
    {a : α} (hget : get? fields key = some a) : Fields.put fields key a = fields := by
  refine (h.put key a).ext h fun other => ?_
  rw [get?_put]
  split
  · next heq => rw [heq, hget]
  · rfl

namespace Value

variable {slot child v : Value} {segment : String}

theorem Ordered.of_child? (h : slot.Ordered) (hchild : slot.child? segment = some child) :
    child.Ordered := by
  cases slot with
  | map entries => exact (ordered_map_iff.mp h).2 _ (Fields.mem_names_of_get? hchild)
  | list items =>
    rw [child?_list] at hchild
    obtain ⟨index, -, hitem⟩ := Option.bind_eq_some_iff.mp hchild
    exact ordered_list_iff.mp h child (List.mem_of_getElem? hitem)
  | _ => cases hchild

theorem Ordered.withChild_eq_self (h : slot.Ordered) (hchild : slot.child? segment = some child) :
    slot.withChild segment child = slot := by
  cases slot with
  | map entries => exact congrArg map ((ordered_map_iff.mp h).1.put_eq_self hchild)
  | list items =>
    rw [child?_list] at hchild
    obtain ⟨index, hindex, hitem⟩ := Option.bind_eq_some_iff.mp hchild
    obtain ⟨hlt, rfl⟩ := List.getElem?_eq_some_iff.mp hitem
    simp [withChild, hindex]
  | _ => cases hchild

/-- To write what is there changes nothing. -/
theorem Ordered.write_eq_self {segs : List String} (h : slot.Ordered)
    (hread : slot.atSegments? segs = some v) : write (some v) segs slot = slot := by
  induction segs generalizing slot with
  | nil => exact (Option.some.inj hread).symm
  | cons segment rest ih =>
    rw [atSegments?] at hread
    obtain ⟨child, hchild, hrest⟩ := Option.bind_eq_some_iff.mp hread
    rw [write_cons, hchild, Option.getD_some, ih (h.of_child? hchild) hrest,
      h.withChild_eq_self hchild]

theorem write_none_of_no_child (rest : List String) (h : slot.child? segment = none) :
    write none (segment :: rest) slot = slot := by
  cases slot with
  | map entries =>
    have hget : Fields.get? entries segment = none := h
    simp [write, writeEntry, hget]
  | list items =>
    rw [child?_list] at h
    cases hindex : itemIndex? items segment with
    | none => simp [write, hindex]
    | some index =>
      have hlt : index < items.length := lt_of_itemIndex? hindex
      simp [hindex, hlt] at h
  | _ => rfl

/-- A removal further down goes on in the child. -/
theorem write_none_of_child {rest : List String} (h : slot.child? segment = some child)
    (hrest : rest ≠ []) :
    write none (segment :: rest) slot = slot.withChild segment (write none rest child) := by
  cases slot with
  | map entries =>
    have hget : Fields.get? entries segment = some child := h
    simp [write, writeEntry, withChild, hget, hrest]
  | list items =>
    rw [child?_list] at h
    obtain ⟨index, hindex, hitem⟩ := Option.bind_eq_some_iff.mp h
    simp [write, withChild, hindex, List.modify_eq_set_getElem?, hitem]
  | _ => cases h

/-- To remove what is not there changes nothing. -/
theorem Ordered.write_none_eq_self {segs : List String} (h : slot.Ordered)
    (habsent : slot.atSegments? segs = none) : write none segs slot = slot := by
  induction segs generalizing slot with
  | nil => cases habsent
  | cons segment rest ih =>
    rw [atSegments?] at habsent
    cases hchild : slot.child? segment with
    | none => exact write_none_of_no_child rest hchild
    | some child =>
      rw [hchild, Option.bind_some] at habsent
      have hrest : rest ≠ [] := by
        rintro rfl
        cases habsent
      rw [write_none_of_child hchild hrest, ih (h.of_child? hchild) habsent,
        h.withChild_eq_self hchild]

/-- What was removed is gone, or null where it was an item of a list. -/
theorem atSegments?_write_none (segs : List String) (slot : Value) :
    (write none segs slot).atSegments? segs = none ∨
      (write none segs slot).atSegments? segs = some .null := by
  induction segs generalizing slot with
  | nil => exact Or.inr rfl
  | cons segment rest ih =>
    rw [atSegments?, child?_write_none]
    cases slot.child? segment with
    | none => exact Or.inl rfl
    | some old =>
      rw [Option.bind_some]
      split
      · exact Or.inl rfl
      · exact ih old

end Value

section Laws

variable {values : Fields Value} {path : String} {v : Value}

theorem writeAt_eq_self (h : (Value.map values).Ordered) (hread : valueAt? values path = some v) :
    writeAt values path (some v) = values := by
  rw [valueAt?_eq] at hread
  apply Value.map.inj
  rw [map_writeAt, h.write_eq_self hread]

theorem writeAt_none_eq_self (h : (Value.map values).Ordered)
    (habsent : valueAt? values path = none) : writeAt values path none = values := by
  rw [valueAt?_eq] at habsent
  apply Value.map.inj
  rw [map_writeAt, h.write_none_eq_self habsent]

theorem valueAt?_writeAt_none (values : Fields Value) (path : String) :
    valueAt? (writeAt values path none) path = none ∨
      valueAt? (writeAt values path none) path = some .null := by
  rw [valueAt?_eq, map_writeAt]
  exact Value.atSegments?_write_none (segments path) (.map values)

end Laws

/-- All ways down find the same, and to put a value into a place is to write it at the path. What is
written is read, of two values written one after the other only the later one leaves a trace, a
removal leaves nothing or null, and to remove what is not there changes nothing. -/
theorem path_access {values : Fields Value} (h : (Value.map values).Ordered) (path : String)
    (v w : Value) :
    lookUp? values path = valueAt? values path ∧
      (placeAt? values path).map Place.value = valueAt? values path ∧
      (∀ place ∈ placeAt? values path, place.put v = writeAt values path (some v)) ∧
      valueAt? (writeAt values path (some v)) path = some v ∧
      (placeAt? (writeAt values path (some v)) path).map Place.value = some v ∧
      writeAt (writeAt values path (some v)) path (some w) = writeAt values path (some w) ∧
      (valueAt? (writeAt values path none) path = none ∨
        valueAt? (writeAt values path none) path = some .null) ∧
      (valueAt? values path = none → writeAt values path none = values) := by
  have hput : ∀ place ∈ placeAt? values path, place.put v = writeAt values path (some v) := by
    intro place hplace
    rw [placeAt?_eq, Option.mem_def] at hplace
    obtain ⟨old, -, rfl⟩ := Option.map_eq_some_iff.mp hplace
    rfl
  have hread : valueAt? (writeAt values path (some v)) path = some v :=
    valueAt?_writeAt_self values path v
  exact ⟨lookUp?_eq values path, map_value_placeAt? values path, hput, hread,
    (map_value_placeAt? _ path).trans hread, writeAt_writeAt values path w v,
    valueAt?_writeAt_none values path, writeAt_none_eq_self h⟩

/-- A tag that the list does not have, and an entry made below one that it has. -/
theorem path_access_tags :
    let values : Fields Value :=
      [("name", .string "ann"), ("tags", .list [.string "a", .map [("k", .int 1)]])]
    (Value.map values).Ordered ∧ valueAt? values "tags.7.x" = none ∧
      writeAt values "tags.7.x" none = values ∧
      valueAt? (writeAt values "tags.1.k.x" (some (.int 2))) "tags.1.k.x" = some (.int 2) := by
  intro values
  have hordered : (Value.map values).Ordered := by
    have hleaves : (Value.string "ann").Ordered ∧ (Value.string "a").Ordered ∧
        (Value.int 1).Ordered := ⟨trivial, trivial, trivial⟩
    refine Value.ordered_map_iff.mpr ⟨by decide, ?_⟩
    simpa [values, Fields.sorted_cons_iff, Fields.sorted_nil] using hleaves
  have habsent : valueAt? values "tags.7.x" = none := by rfl
  obtain ⟨-, -, -, -, -, -, -, hremoved⟩ := path_access hordered "tags.7.x" .null .null
  obtain ⟨-, -, -, hwritten, -⟩ := path_access hordered "tags.1.k.x" (.int 2) .null
  exact ⟨hordered, habsent, hremoved habsent, hwritten⟩

end DocMapper
