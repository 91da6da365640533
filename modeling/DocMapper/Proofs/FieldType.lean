import DocMapper.Proofs.Fields
import DocMapper.Proofs.Path
import DocMapper.Proofs.Success
import DocMapper.Schema
import DocMapper.Tracking.Atomics
/-!
# The values that a type holds

A cast gives a value that its type holds, and keeps one. A value held by a field may be written into
below: removing keeps it held, and writing does if the type has room for what is written. Elements
of a held container are taken by its type even where they stand without the container, as they do
when they are added to a stored one.
-/

namespace DocMapper

namespace FieldType

/-- The values that have the shape of a type: null, a value of its own variant, or a container of
such values. -/
def Holds : FieldType → Value → Prop
  | _, .null => True
  | .any, _ => True
  | .boolean, .bool _ => True
  | .integer, .int _ => True
  | .double, .float _ => True
  | .string, .string _ => True
  | .dateTime, .dateTime _ => True
  | .link, .link _ => True
  | .embedded, .map _ => True
  | .list item, .list items | .set item, .list items => ∀ v ∈ items, item.Holds v
  | .map item, .map entries => ∀ entry ∈ entries, item.Holds entry.2
  | _, _ => False

variable {ty item : FieldType} {v w : Value} {items : List Value} {entries : Fields Value}

@[simp]
theorem holds_null (ty : FieldType) : ty.Holds .null := by
  cases ty <;> trivial

@[simp]
theorem holds_any (v : Value) : any.Holds v := by
  cases v <;> trivial

theorem holds_list_iff :
    ty.Holds (.list items) ↔ ty.Holds (.list []) ∧ ∀ v ∈ items, ty.itemType.Holds v := by
  cases ty with
  | any => simp [Holds, itemType]
  | list item | set item => simp [Holds, itemType]
  | _ => simp [Holds]

theorem holds_map_empty (h : ty.Holds (.map entries)) : ty.Holds (.map []) := by
  cases ty with
  | any | embedded => trivial
  | map item => exact nofun
  | _ => exact h

theorem holds_map_put (h : ty.Holds (.map entries)) {key : String} (hv : ty.itemType.Holds v) :
    ty.Holds (.map (Fields.put entries key v)) := by
  cases ty with
  | any | embedded => trivial
  | map item =>
    intro entry hmem
    rcases Fields.mem_put hmem with rfl | hmem
    · exact hv
    · exact h entry hmem
  | _ => exact h

theorem holds_map_of_subset (h : ty.Holds (.map entries)) {fewer : Fields Value}
    (hfewer : ∀ entry ∈ fewer, entry ∈ entries) : ty.Holds (.map fewer) := by
  cases ty with
  | any | embedded => trivial
  | map item => exact fun entry hmem => h entry (hfewer entry hmem)
  | _ => exact h

/-! ### Casting -/

theorem mem_of_mem_distinctFrom {seen items : List Value} {v : Value}
    (h : v ∈ distinctFrom seen items) : v ∈ items := by
  induction items generalizing seen with
  | nil => exact h
  | cons first rest ih =>
    rw [distinctFrom] at h
    split at h
    · exact List.mem_cons_of_mem first (ih h)
    · rcases List.mem_cons.mp h with rfl | h
      · exact List.mem_cons_self
      · exact List.mem_cons_of_mem first (ih h)

theorem pairwise_distinctFrom (seen items : List Value) :
    (∀ a ∈ seen, ∀ b ∈ distinctFrom seen items, a.eqv b = false) ∧
      (distinctFrom seen items).Pairwise fun a b => a.eqv b = false := by
  induction items generalizing seen with
  | nil => exact ⟨fun _ _ => nofun, List.Pairwise.nil⟩
  | cons v rest ih =>
    rw [distinctFrom]
    split
    · exact ih seen
    · next hnew =>
      obtain ⟨hseen, hpairwise⟩ := ih (seen ++ [v])
      have hv : ∀ a ∈ seen, a.eqv v = false := by
        simpa [Value.occursIn] using hnew
      refine ⟨fun a ha => List.forall_mem_cons.mpr ⟨hv a ha, ?_⟩, ?_⟩
      · exact hseen a (List.mem_append_left [v] ha)
      · exact List.pairwise_cons.mpr
          ⟨hseen v (List.mem_append_right seen List.mem_cons_self), hpairwise⟩

@[simp]
theorem conforms_null (ty : FieldType) : ty.Conforms .null := by
  cases ty <;> trivial

theorem conforms_of_isNull (h : v.isNull = true) : ty.Conforms v := by
  cases v <;> first | exact conforms_null ty | cases h

theorem conforms_of_castScalar? (h : castScalar? ty v = some w) : ty.Conforms w := by
  cases ty with
  | boolean | integer | double | string | dateTime | link | embedded =>
    obtain ⟨a, -, rfl⟩ := Option.map_eq_some_iff.mp h
    trivial
  | any | list | set | map => cases h

theorem conforms_of_castOr {path : String} (h : castOr ty path v (castScalar? ty v) = .ok w) :
    ty.Conforms w := by
  unfold castOr at h
  split at h
  · next hcast =>
    cases h
    exact conforms_of_castScalar? hcast
  · cases h

/-- A cast gives a value that conforms to the type. -/
theorem conforms_of_cast {path : String} (h : ty.cast path v = .ok w) : ty.Conforms w := by
  induction ty generalizing v w with
  | any => cases w <;> trivial
  | list item ih =>
    unfold cast at h
    split at h
    · next hnull =>
      cases h
      exact conforms_of_isNull hnull
    · obtain ⟨items, hitems, rfl⟩ := Success.map_eq_ok.mp h
      intro result hmem
      obtain ⟨single, -, hcast⟩ := Success.exists_of_mapM_eq_ok hitems result hmem
      exact ih hcast
  | set item ih =>
    unfold cast at h
    split at h
    · next hnull =>
      cases h
      exact conforms_of_isNull hnull
    · obtain ⟨items, hitems, rfl⟩ := Success.map_eq_ok.mp h
      refine ⟨fun result hmem => ?_, (pairwise_distinctFrom [] items).2⟩
      obtain ⟨single, -, hcast⟩ :=
        Success.exists_of_mapM_eq_ok hitems result (mem_of_mem_distinctFrom hmem)
      exact ih hcast
  | map item ih =>
    cases v with
    | map entries =>
      have hcast : (entries.mapM fun entry => (cast item path entry.2).map (entry.1, ·)).map
          Value.map = .ok w := h
      obtain ⟨results, hresults, rfl⟩ := Success.map_eq_ok.mp hcast
      intro result hmem
      obtain ⟨entry, -, hmap⟩ := Success.exists_of_mapM_eq_ok hresults result hmem
      obtain ⟨value, hvalue, rfl⟩ := Success.map_eq_ok.mp hmap
      exact ih hvalue
    | null =>
      cases h
      trivial
    | bool | int | float | string | dateTime | link | list => cases h
  | boolean | integer | double | string | dateTime | link | embedded =>
    unfold cast at h
    split at h
    · next hnull =>
      cases h
      exact conforms_of_isNull hnull
    · exact conforms_of_castOr h

theorem holds_of_conforms (h : ty.Conforms v) : ty.Holds v := by
  induction ty generalizing v with
  | any => exact holds_any v
  | list item ih =>
    cases v with
    | null => trivial
    | list items => exact fun w hmem => ih (h w hmem)
    | bool | int | float | string | dateTime | link | map => cases h
  | set item ih =>
    cases v with
    | null => trivial
    | list items => exact fun w hmem => ih (h.1 w hmem)
    | bool | int | float | string | dateTime | link | map => cases h
  | map item ih =>
    cases v with
    | null => trivial
    | map entries => exact fun entry hmem => ih (h entry hmem)
    | bool | int | float | string | dateTime | link | list => cases h
  | boolean | integer | double | string | dateTime | link | embedded =>
    cases v <;> trivial

theorem holds_of_cast {path : String} (h : ty.cast path v = .ok w) : ty.Holds w :=
  holds_of_conforms (conforms_of_cast h)

theorem castOr_eq_error {path : String} {result : Option Value} {e : CastError}
    (h : castOr ty path v result = .error e) : result = none ∧ e.path = path := by
  cases result with
  | none =>
    cases h
    exact ⟨rfl, rfl⟩
  | some w => cases h

theorem cast_list_eq_error {path : String} {e : CastError}
    (h : (list item).cast path v = .error e ∨ (set item).cast path v = .error e) :
    v.isNull = false ∧ ∃ w ∈ itemsOf v, item.cast path w = .error e := by
  have hitems : v.isNull = false ∧ (itemsOf v).mapM (item.cast path) = .error e := by
    rcases h with h | h
    all_goals
      unfold cast at h
      split at h
      · cases h
      · next hnull => exact ⟨by simpa using hnull, Success.map_eq_error.mp h⟩
  exact ⟨hitems.1, Success.exists_of_mapM_eq_error hitems.2⟩

theorem cast_map_eq_error {path : String} {e : CastError}
    (h : (map item).cast path (.map entries) = .error e) :
    ∃ entry ∈ entries, item.cast path entry.2 = .error e := by
  have hcast : (entries.mapM fun entry => (cast item path entry.2).map (entry.1, ·)).map
      Value.map = .error e := h
  obtain ⟨entry, hmem, hentry⟩ :=
    Success.exists_of_mapM_eq_error (Success.map_eq_error.mp hcast)
  exact ⟨entry, hmem, Success.map_eq_error.mp hentry⟩

/-- A cast that fails names the path it was given. -/
theorem path_of_cast {path : String} {e : CastError} (h : ty.cast path v = .error e) :
    e.path = path := by
  induction ty generalizing v with
  | any =>
    unfold cast at h
    split at h <;> cases h
  | list item ih =>
    obtain ⟨-, w, -, hw⟩ := cast_list_eq_error (Or.inl h)
    exact ih hw
  | set item ih =>
    obtain ⟨-, w, -, hw⟩ := cast_list_eq_error (Or.inr h)
    exact ih hw
  | map item ih =>
    cases v with
    | map entries =>
      obtain ⟨entry, -, hentry⟩ := cast_map_eq_error h
      exact ih hentry
    | null => cases h
    | bool | int | float | string | dateTime | link | list =>
      cases h
      rfl
  | boolean | integer | double | string | dateTime | link | embedded =>
    unfold cast at h
    split at h
    · cases h
    · exact (castOr_eq_error h).2

/-- Casting the value to the type does not fail. -/
def Accepts (ty : FieldType) (v : Value) : Prop :=
  ∀ path e, ty.cast path v ≠ .error e

theorem accepts_null (ty : FieldType) : ty.Accepts .null := by
  intro path e h
  unfold cast at h
  cases h

theorem accepts_any (v : Value) : any.Accepts v := by
  intro path e h
  unfold cast at h
  split at h <;> cases h

theorem accepts_list (h : ∀ w ∈ itemsOf v, item.Accepts w) : (list item).Accepts v := by
  intro path e hcast
  obtain ⟨-, w, hmem, hw⟩ := cast_list_eq_error (Or.inl hcast)
  exact h w hmem path e hw

theorem accepts_set (h : ∀ w ∈ itemsOf v, item.Accepts w) : (set item).Accepts v := by
  intro path e hcast
  obtain ⟨-, w, hmem, hw⟩ := cast_list_eq_error (Or.inr hcast)
  exact h w hmem path e hw

theorem castScalar?_of_holds (h : ty.Holds v) (hnull : v.isNull = false)
    (hscalar : ty.container? = none) (hany : ty ≠ any) : castScalar? ty v ≠ none := by
  cases ty with
  | any => exact absurd rfl hany
  | list | set | map => cases hscalar
  | boolean | integer | double | string | dateTime | link | embedded =>
    cases v <;> first | exact Option.some_ne_none _ | exact False.elim h | cases hnull

theorem accepts_of_holds (h : ty.Holds v) : ty.Accepts v := by
  induction ty generalizing v with
  | any => exact accepts_any v
  | list item ih =>
    cases v with
    | null => exact accepts_null _
    | list items => exact accepts_list fun w hmem => ih (h w hmem)
    | bool | int | float | string | dateTime | link | map => cases h
  | set item ih =>
    cases v with
    | null => exact accepts_null _
    | list items => exact accepts_set fun w hmem => ih (h w hmem)
    | bool | int | float | string | dateTime | link | map => cases h
  | map item ih =>
    cases v with
    | null => exact accepts_null _
    | map entries =>
      intro path e hcast
      obtain ⟨entry, hmem, hentry⟩ := cast_map_eq_error hcast
      exact ih (h entry hmem) path e hentry
    | bool | int | float | string | dateTime | link | list => cases h
  | boolean | integer | double | string | dateTime | link | embedded =>
    intro path e hcast
    unfold cast at hcast
    split at hcast
    · cases hcast
    · next hnull =>
      exact castScalar?_of_holds h (by simpa using hnull) rfl nofun (castOr_eq_error hcast).1

/-! ### Elements that stand alone

An element is cast as if it were a container of elements. If it is a list its own items are cast in
its place, which may be lists again. -/

theorem accepts_itemsOf (h : ty.Holds v) : ∀ w ∈ itemsOf v, ty.Accepts w := by
  -- An item of a held list is one level shallower than its type, so its own items are looked at.
  induction ty generalizing v with
  | any => exact fun w _ => accepts_any w
  | list item ih =>
    cases v with
    | list inner => exact fun w hmem => accepts_list (ih (h w hmem))
    | null | bool | int | float | string | dateTime | link | map =>
      exact List.forall_mem_singleton.mpr (accepts_of_holds h)
  | set item ih =>
    cases v with
    | list inner => exact fun w hmem => accepts_set (ih (h w hmem))
    | null | bool | int | float | string | dateTime | link | map =>
      exact List.forall_mem_singleton.mpr (accepts_of_holds h)
  | boolean | integer | double | string | dateTime | link | embedded | map =>
    cases v with
    | list inner => cases h
    | null | bool | int | float | string | dateTime | link | map =>
      exact List.forall_mem_singleton.mpr (accepts_of_holds h)

/-- The items of an operand are taken one by one, also if it is a single list. -/
theorem accepts_itemsOf_singleOrList (h : ∀ v ∈ items, item.Holds v) :
    ∀ w ∈ itemsOf (singleOrList items), item.Accepts w := by
  match items with
  | [single] => exact accepts_itemsOf (h single List.mem_cons_self)
  | [] => exact nofun
  | first :: second :: rest => exact fun w hmem => accepts_of_holds (h w hmem)

theorem accepts_singleOrList (h : ty.Holds (.list items)) : ty.Accepts (singleOrList items) := by
  cases ty with
  | any => exact accepts_any _
  | list item => exact accepts_list (accepts_itemsOf_singleOrList h)
  | set item => exact accepts_set (accepts_itemsOf_singleOrList h)
  | boolean | integer | double | string | dateTime | link | embedded | map => cases h

/-! ### Writing below -/

/-- Whether a value held by a type has room for another below it. Documents and untyped values take
anything, maps take new entries, and lists take no more than a new value of an item they have. -/
def Takes (v : Value) : FieldType → List String → Value → Prop
  | ty, [], _ => ty.Holds v
  | .any, _ :: _, _ | .embedded, _ :: _, _ => True
  | .map item, segment :: rest, slot => item.Takes v rest ((slot.child? segment).getD (.map []))
  | .list item, segment :: rest, slot | .set item, segment :: rest, slot =>
    ∃ child, slot.child? segment = some child ∧ item.Takes v rest child
  | _, _ :: _, _ => False

section Below

variable {slot : Value} {segment : String}

theorem holds_set_iff : (set item).Holds v ↔ (list item).Holds v := by
  cases v <;> rfl

theorem holds_child? (h : (map item).Holds slot) :
    item.Holds ((slot.child? segment).getD (.map [])) ∨
      (slot.child? segment).getD (.map []) = .map [] := by
  cases hchild : slot.child? segment with
  | none => exact Or.inr rfl
  | some child =>
    cases slot with
    | map entries => exact Or.inl (h _ (Fields.mem_names_of_get? hchild))
    | null => cases hchild
    | bool | int | float | string | dateTime | link | list => cases h

theorem holds_map_withChild_iff (h : (map item).Holds slot) :
    (map item).Holds (slot.withChild segment v) ↔ item.Holds v := by
  cases slot with
  | map entries =>
    refine ⟨fun hput => ?_, holds_map_put h⟩
    exact hput (segment, v) (Fields.mem_names_of_get? (Fields.get?_put_self entries segment v))
  | null => exact List.forall_mem_singleton
  | bool | int | float | string | dateTime | link | list => cases h

theorem holds_embedded_withChild (h : embedded.Holds slot) :
    embedded.Holds (slot.withChild segment v) := by
  cases slot with
  | map | null => trivial
  | bool | int | float | string | dateTime | link | list => cases h

theorem not_holds_withChild (hslot : ty.Holds slot ∨ slot = .map [])
    (hmap : ∀ entries, ¬ ty.Holds (.map entries)) (hlist : ∀ items, ¬ ty.Holds (.list items)) :
    ¬ ty.Holds (slot.withChild segment v) := by
  cases slot with
  | map entries =>
    rcases hslot with h | h
    · exact absurd h (hmap entries)
    · exact hmap _
  | list items => exact absurd (hslot.resolve_right nofun) (hlist items)
  | _ => exact hmap _

theorem holds_list_child? (hslot : (list item).Holds slot ∨ slot = .map []) {child : Value}
    (hchild : slot.child? segment = some child) : item.Holds child := by
  rcases hslot with h | rfl
  · cases slot with
    | list items =>
      rw [Value.child?_list] at hchild
      obtain ⟨index, -, hget⟩ := Option.bind_eq_some_iff.mp hchild
      exact h child (List.mem_of_getElem? hget)
    | null => cases hchild
    | bool | int | float | string | dateTime | link | map => cases h
  · cases hchild

/-- A list keeps its shape if the child takes the place of an item. -/
theorem holds_list_withChild_iff (hslot : (list item).Holds slot ∨ slot = .map []) :
    (list item).Holds (slot.withChild segment v) ↔
      (∃ child, slot.child? segment = some child) ∧ item.Holds v := by
  have hmap : ∀ entries, ¬ (list item).Holds (.map entries) := fun _ => id
  cases slot with
  | list items =>
    have h : ∀ w ∈ items, item.Holds w := hslot.resolve_right nofun
    rw [Value.child?_list, Value.withChild]
    cases hindex : Value.itemIndex? items segment with
    | none => simp [hmap]
    | some index =>
      have hlt : index < items.length := Value.lt_of_itemIndex? hindex
      constructor
      · intro hset
        exact ⟨⟨items[index], by simp [hlt]⟩, hset v (List.mem_set hlt v)⟩
      · rintro ⟨-, hv⟩ w hmem
        rcases List.mem_or_eq_of_mem_set hmem with hmem | rfl
        · exact h w hmem
        · exact hv
  | map entries =>
    obtain rfl := Value.map.inj (hslot.resolve_left (hmap entries))
    simp [Value.withChild, Value.child?, hmap]
  | null => simp [Value.withChild, Value.child?, hmap]
  | bool | int | float | string | dateTime | link => exact absurd hslot (by simp [Holds])

theorem holds_list_write_iff {rest : List String}
    (hslot : (list item).Holds slot ∨ slot = .map [])
    (ih : ∀ child, item.Holds child →
      (item.Holds (Value.write (some v) rest child) ↔ Takes v item rest child)) :
    (list item).Holds (Value.write (some v) (segment :: rest) slot) ↔
      ∃ child, slot.child? segment = some child ∧ Takes v item rest child := by
  rw [Value.write_cons, holds_list_withChild_iff hslot]
  constructor
  · rintro ⟨⟨child, hchild⟩, hwritten⟩
    rw [hchild, Option.getD_some, ih child (holds_list_child? hslot hchild)] at hwritten
    exact ⟨child, hchild, hwritten⟩
  · rintro ⟨child, hchild, htakes⟩
    rw [hchild, Option.getD_some, ih child (holds_list_child? hslot hchild)]
    exact ⟨⟨child, rfl⟩, htakes⟩

/-- A value stays held exactly if it takes what is written below it. -/
theorem holds_write_iff {segs : List String} (hslot : ty.Holds slot ∨ slot = .map []) :
    ty.Holds (Value.write (some v) segs slot) ↔ Takes v ty segs slot := by
  induction segs generalizing ty slot with
  | nil =>
    rw [Takes]
    rfl
  | cons segment rest ih =>
    cases ty with
    | any => simp [Takes]
    | embedded =>
      have hheld : embedded.Holds slot := hslot.elim id (fun h => h ▸ trivial)
      rw [Value.write_cons]
      exact iff_of_true (holds_embedded_withChild hheld) trivial
    | map item =>
      have hheld : (map item).Holds slot := hslot.elim id (fun h => h ▸ nofun)
      rw [Value.write_cons, holds_map_withChild_iff hheld, ih (holds_child? hheld), Takes]
    | list item => exact holds_list_write_iff hslot fun _ hchild => ih (Or.inl hchild)
    | set item =>
      rw [holds_set_iff] at hslot ⊢
      exact holds_list_write_iff hslot fun _ hchild => ih (Or.inl hchild)
    | boolean | integer | double | string | dateTime | link =>
      rw [Value.write_cons]
      exact iff_of_false (not_holds_withChild hslot (fun _ => id) (fun _ => id)) id

theorem holds_removed {segs : List String} (h : ty.Holds slot) :
    ty.Holds (Value.write none segs slot) := by
  induction segs generalizing ty slot with
  | nil => exact holds_null ty
  | cons segment rest ih =>
    cases slot with
    | map entries =>
      cases ty with
      | any | embedded => trivial
      | map item =>
        intro entry hmem
        rcases Value.mem_writeEntry_removes hmem with hmem | ⟨old, hold, rfl⟩
        · exact h entry hmem
        · exact ih (h _ hold)
      | boolean | integer | double | string | dateTime | link | list | set => cases h
    | list items =>
      rw [Value.write]
      split
      · next index _ =>
        obtain ⟨hempty, hitems⟩ := holds_list_iff.mp h
        refine holds_list_iff.mpr ⟨hempty, fun w hmem => ?_⟩
        rw [List.modify_eq_set_getElem?] at hmem
        cases hitem : items[index]? with
        | none =>
          rw [hitem] at hmem
          exact hitems w hmem
        | some old =>
          rw [hitem] at hmem
          rcases List.mem_or_eq_of_mem_set hmem with hmem | rfl
          · exact hitems w hmem
          · exact ih (hitems old (List.mem_of_getElem? hitem))
      · exact h
    | null | bool | int | float | string | dateTime | link => exact h

end Below

end FieldType

end DocMapper
