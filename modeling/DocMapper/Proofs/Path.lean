import DocMapper.Path
import DocMapper.Proofs.Fields
/-!
# Paths as text and as segments

A path is split at every dot, so putting a dot between two paths puts their segments one after the
other, and the paths above a path are those whose segments begin its own. Writing along segments
goes down one child at a time.
-/

namespace DocMapper

namespace Text

variable {sep : Char}

theorem splitChars_of_not_mem {cs : List Char} (h : sep ∉ cs) : splitChars sep cs = [cs] := by
  induction cs with
  | nil => rfl
  | cons c rest ih =>
    have hc : c ≠ sep := fun heq => h (heq ▸ List.mem_cons_self)
    have hrest : sep ∉ rest := fun hmem => h (List.mem_cons_of_mem c hmem)
    simp only [splitChars, hc, if_false, ih hrest]

theorem splitChars_append (before after : List Char) :
    splitChars sep (before ++ sep :: after) = splitChars sep before ++ splitChars sep after := by
  induction before with
  | nil => simp [splitChars]
  | cons c rest ih =>
    rw [List.cons_append]
    by_cases hc : c = sep
    · simp only [splitChars, hc, if_true, ih, List.cons_append]
    · simp only [splitChars, hc, if_false, ih]
      cases hrest : splitChars sep rest with
      | nil => exact absurd hrest (splitChars_ne_nil sep rest)
      | cons piece pieces => rfl

theorem splitChars_eq_cutAt? (sep : Char) (cs : List Char) :
    splitChars sep cs = match cutAt? sep cs with
      | some (before, after) => before :: splitChars sep after
      | none => [cs] := by
  induction cs with
  | nil => rfl
  | cons c rest ih =>
    by_cases hc : c = sep
    · simp [splitChars, cutAt?, hc]
    · simp only [splitChars, cutAt?, hc, if_false, ih]
      cases cutAt? sep rest <;> rfl

end Text

theorem segments_append (first second : String) :
    segments (first ++ "." ++ second) = segments first ++ segments second := by
  simp [segments, Text.split, Text.splitChars_append]

theorem segments_injective : Function.Injective segments := by
  intro first second h
  have hpieces : Text.splitChars '.' first.toList = Text.splitChars '.' second.toList :=
    List.map_injective_iff.mpr (fun _ _ => String.ofList_inj.mp) h
  apply String.toList_inj.mp
  rw [← Text.intercalate_splitChars '.' first.toList, hpieces, Text.intercalate_splitChars]

theorem undotted_of_mem_segments {path segment : String} (h : segment ∈ segments path) :
    hasDot segment = false := by
  obtain ⟨piece, hpiece, rfl⟩ := List.mem_map.mp h
  simpa [hasDot] using Text.not_mem_of_mem_splitChars hpiece

/-! ### Paths without a dot -/

section Undotted

variable {path : String} (h : hasDot path = false)

include h

theorem dot_not_mem : '.' ∉ path.toList := by
  simpa [hasDot] using h

theorem segments_of_undotted : segments path = [path] := by
  rw [segments, Text.split, Text.splitChars_of_not_mem (dot_not_mem h)]
  simp

theorem isBelow_of_undotted (ancestor : String) : isBelow path ancestor = false := by
  rw [isBelow, Bool.eq_false_iff, ne_eq, List.isPrefixOf_iff_prefix]
  intro hbegins
  exact dot_not_mem h (hbegins.subset (by simp))

end Undotted

theorem segments_intercalate {pieces : List String} (hne : pieces ≠ [])
    (h : ∀ piece ∈ pieces, hasDot piece = false) : segments (".".intercalate pieces) = pieces := by
  induction pieces with
  | nil => exact absurd rfl hne
  | cons piece rest ih =>
    obtain ⟨hpiece, hrest⟩ := List.forall_mem_cons.mp h
    cases rest with
    | nil => rw [String.intercalate_singleton, segments_of_undotted hpiece]
    | cons next rest =>
      rw [String.intercalate_cons_cons, segments_append, segments_of_undotted hpiece,
        ih (List.cons_ne_nil next rest) hrest, List.singleton_append]

/-! ### The paths above a path -/

/-- No segment of a path is empty. -/
def Proper (path : String) : Prop :=
  ∀ segment ∈ segments path, segment ≠ ""

instance : DecidablePred Proper :=
  fun path => inferInstanceAs (Decidable (∀ segment ∈ segments path, segment ≠ ""))

theorem isBelow_iff {path ancestor : String} :
    isBelow path ancestor = true ↔ ∃ rest, path = ancestor ++ "." ++ rest := by
  rw [isBelow, List.isPrefixOf_iff_prefix]
  constructor
  · rintro ⟨rest, hrest⟩
    refine ⟨String.ofList rest, String.toList_inj.mp ?_⟩
    simp [← hrest]
  · rintro ⟨rest, rfl⟩
    exact ⟨rest.toList, by simp⟩

theorem lt_of_isBelow {path ancestor : String} (h : isBelow path ancestor = true) :
    ancestor < path := by
  obtain ⟨rest, rfl⟩ := isBelow_iff.mp h
  have hchars : ∀ before after : List Char, before < before ++ '.' :: after := by
    intro before after
    induction before with
    | nil => exact List.nil_lt_cons _ _
    | cons c before ih => exact List.cons_lt_cons_self.mpr ih
  rw [String.lt_iff_toList_lt]
  simpa using hchars ancestor.toList rest.toList

/-- Of two paths above a third one lies above the other. -/
theorem isBelow_of_above {path first second : String} (hfirst : isBelow path first = true)
    (hsecond : isBelow path second = true) :
    first = second ∨ isBelow first second = true ∨ isBelow second first = true := by
  simp only [isBelow, List.isPrefixOf_iff_prefix] at *
  rcases List.prefix_or_prefix_of_prefix hfirst hsecond with h | h
  · rcases List.prefix_concat_iff.mp h with heq | hprefix
    · exact Or.inl (String.toList_inj.mp (List.append_cancel_right heq))
    · exact Or.inr (Or.inr hprefix)
  · rcases List.prefix_concat_iff.mp h with heq | hprefix
    · exact Or.inl (String.toList_inj.mp (List.append_cancel_right heq.symm))
    · exact Or.inr (Or.inl hprefix)

/-- The segments of a path begin those of itself and of the paths below. -/
theorem segments_prefix_iff {path ancestor : String} :
    segments ancestor <+: segments path ↔ path = ancestor ∨ isBelow path ancestor = true := by
  constructor
  · rintro ⟨rest, hrest⟩
    by_cases hnil : rest = []
    · rw [hnil, List.append_nil] at hrest
      exact Or.inl (segments_injective hrest.symm)
    · have hundotted : ∀ segment ∈ rest, hasDot segment = false :=
        fun segment hmem => undotted_of_mem_segments (hrest ▸ List.mem_append_right _ hmem)
      refine Or.inr (isBelow_iff.mpr ⟨".".intercalate rest, segments_injective ?_⟩)
      rw [segments_append, segments_intercalate hnil hundotted, hrest]
  · rintro (rfl | hbelow)
    · exact List.prefix_rfl
    · obtain ⟨rest, rfl⟩ := isBelow_iff.mp hbelow
      exact ⟨segments rest, (segments_append ancestor rest).symm⟩

theorem mem_lineageFrom_iff {path other : String} {rest : List String} (hpath : path ≠ "")
    (hrest : ∀ segment ∈ rest, hasDot segment = false) :
    other ∈ lineageFrom path rest ↔
      ∃ taken, taken ≠ [] ∧ taken <+: rest ∧ segments other = segments path ++ taken := by
  induction rest generalizing path with
  | nil => simp [lineageFrom]
  | cons segment rest ih =>
    obtain ⟨hsegment, hlater⟩ := List.forall_mem_cons.mp hrest
    have hnext : segments (path ++ "." ++ segment) = segments path ++ [segment] := by
      rw [segments_append, segments_of_undotted hsegment]
    have hempty : path.isEmpty = false := by simpa using hpath
    have hne : path ++ "." ++ segment ≠ "" := by simp
    simp only [lineageFrom, hempty, Bool.false_eq_true, if_false, List.mem_cons]
    rw [ih hne hlater, hnext]
    constructor
    · rintro (rfl | ⟨taken, -, hbegins, htaken⟩)
      · exact ⟨[segment], by simp, by simp, hnext⟩
      · exact ⟨segment :: taken, by simp, by simpa using hbegins, by simpa using htaken⟩
    · rintro ⟨taken, hne', hbegins, htaken⟩
      cases taken with
      | nil => exact absurd rfl hne'
      | cons first taken =>
        obtain ⟨rfl, hlonger⟩ := List.cons_prefix_cons.mp hbegins
        cases taken with
        | nil => exact Or.inl (segments_injective (htaken.trans hnext.symm))
        | cons second taken =>
          exact Or.inr ⟨second :: taken, by simp, hlonger, by simpa using htaken⟩

theorem mem_lineage_iff {path other : String} (h : Proper path) :
    other ∈ lineage path ↔ segments other <+: segments path := by
  obtain ⟨head, rest, hpath⟩ := List.exists_cons_of_ne_nil (segments_ne_nil path)
  have hundotted : ∀ segment ∈ head :: rest, hasDot segment = false :=
    fun segment hmem => undotted_of_mem_segments (hpath ▸ hmem)
  obtain ⟨hhead, hrest⟩ := List.forall_mem_cons.mp hundotted
  have hne : head ≠ "" := h head (hpath ▸ List.mem_cons_self)
  have hlineage : lineage path = head :: lineageFrom head rest := by
    rw [lineage, hpath]
    rfl
  rw [hlineage, List.mem_cons, mem_lineageFrom_iff hne hrest, hpath, segments_of_undotted hhead]
  constructor
  · rintro (rfl | ⟨taken, -, hbegins, htaken⟩)
    · simp [segments_of_undotted hhead]
    · rw [htaken]
      simpa using hbegins
  · intro hbegins
    obtain ⟨first, taken, hother⟩ := List.exists_cons_of_ne_nil (segments_ne_nil other)
    rw [hother] at hbegins ⊢
    obtain ⟨rfl, hlonger⟩ := List.cons_prefix_cons.mp hbegins
    cases taken with
    | nil => exact Or.inl (segments_injective (hother.trans (segments_of_undotted hhead).symm))
    | cons second taken => exact Or.inr ⟨second :: taken, by simp, hlonger, rfl⟩

/-! ### Paths within others -/

/-- Whether a path is another one or lies below it. -/
def isWithin (path other : String) : Bool :=
  path = other || isBelow path other

section Within

variable {path first second : String}

theorem isWithin_iff : isWithin path first = true ↔ path = first ∨ isBelow path first = true := by
  simp [isWithin]

theorem isWithin_iff_segments : isWithin path first = true ↔ segments first <+: segments path :=
  isWithin_iff.trans segments_prefix_iff.symm

theorem isWithin_refl (path : String) : isWithin path path = true :=
  isWithin_iff.mpr (Or.inl rfl)

theorem isWithin_trans (hfirst : isWithin path first = true)
    (hsecond : isWithin first second = true) : isWithin path second = true :=
  isWithin_iff_segments.mpr
    ((isWithin_iff_segments.mp hsecond).trans (isWithin_iff_segments.mp hfirst))

theorem isBelow_of_isWithin (hfirst : isWithin path first = true)
    (hsecond : isBelow first second = true) : isBelow path second = true := by
  rcases isWithin_iff.mp hfirst with rfl | hbelow
  · exact hsecond
  · have hwithin := isWithin_trans hfirst (isWithin_iff.mpr (Or.inr hsecond))
    refine (isWithin_iff.mp hwithin).resolve_left ?_
    rintro rfl
    exact lt_asymm (lt_of_isBelow hbelow) (lt_of_isBelow hsecond)

/-- Of two paths that a third one lies within one lies within the other. -/
theorem isWithin_or_isWithin (hfirst : isWithin path first = true)
    (hsecond : isWithin path second = true) :
    isWithin first second = true ∨ isWithin second first = true := by
  simp only [isWithin_iff_segments] at *
  exact List.prefix_or_prefix_of_prefix hsecond hfirst

end Within

/-! ### Writing along segments -/

namespace Value

theorem lt_of_itemIndex? {items : List Value} {segment : String} {index : Nat}
    (h : itemIndex? items segment = some index) : index < items.length := by
  simpa using (Option.filter_eq_some_iff.mp h).2

theorem itemIndex?_of_length {items others : List Value} (h : items.length = others.length)
    (segment : String) : itemIndex? items segment = itemIndex? others segment := by
  rw [itemIndex?, itemIndex?, h]

theorem child?_list (items : List Value) (segment : String) :
    child? (.list items) segment = (itemIndex? items segment).bind (items[·]?) := by
  rw [child?, itemIndex?]
  cases Number.readIndex? segment.toList with
  | none => rfl
  | some index =>
    by_cases h : index < items.length <;> simp [Option.filter, h]

/-- A value with another child under a segment. What has no such child and cannot get one gives way
to a map. -/
def withChild (slot : Value) (segment : String) (child : Value) : Value :=
  match slot with
  | .map entries => .map (Fields.put entries segment child)
  | .list items =>
    match itemIndex? items segment with
    | some index => .list (items.set index child)
    | none => .map [(segment, child)]
  | _ => .map [(segment, child)]

theorem write_cons (v : Value) (segment : String) (rest : List String) (slot : Value) :
    write (some v) (segment :: rest) slot =
      slot.withChild segment (write (some v) rest ((slot.child? segment).getD (.map []))) := by
  cases slot with
  | map entries =>
    cases hget : Fields.get? entries segment <;> simp [write, writeEntry, withChild, child?, hget]
  | list items =>
    rw [write, withChild, child?_list]
    cases hindex : itemIndex? items segment with
    | none => simp [writeEntry, Fields.put]
    | some index =>
      have hlt : index < items.length := lt_of_itemIndex? hindex
      simp [List.modify_eq_set_getElem?, hlt]
  | _ => simp [write, writeEntry, withChild, child?, Fields.put]

theorem child?_withChild (slot : Value) (segment : String) (child : Value) :
    (slot.withChild segment child).child? segment = some child := by
  cases slot with
  | map entries => exact Fields.get?_put_self entries segment child
  | list items =>
    rw [withChild]
    cases hindex : itemIndex? items segment with
    | none => simp [child?, Fields.get?_cons]
    | some index =>
      have hlt : index < items.length := lt_of_itemIndex? hindex
      have hsame : itemIndex? (items.set index child) segment = some index :=
        (itemIndex?_of_length List.length_set segment).trans hindex
      rw [child?_list, hsame]
      simp [hlt]
  | _ => simp [withChild, child?, Fields.get?_cons]

theorem withChild_withChild (slot : Value) (segment : String) (earlier child : Value) :
    (slot.withChild segment earlier).withChild segment child = slot.withChild segment child := by
  cases slot with
  | map entries => simp [withChild, Fields.put_put]
  | list items =>
    rw [withChild, withChild]
    cases hindex : itemIndex? items segment with
    | none => simp [withChild, Fields.put]
    | some index =>
      have hsame : itemIndex? (items.set index earlier) segment = some index :=
        (itemIndex?_of_length List.length_set segment).trans hindex
      dsimp only
      rw [withChild, hsame]
      simp
  | _ => simp [withChild, Fields.put]

theorem atSegments?_write (v : Value) (segs : List String) (slot : Value) :
    (write (some v) segs slot).atSegments? segs = some v := by
  induction segs generalizing slot with
  | nil => rfl
  | cons segment rest ih =>
    rw [write_cons, atSegments?, child?_withChild]
    exact ih _

/-- What is written over is as if it had never been written. -/
theorem write_write (v earlier : Value) (segs : List String) (slot : Value) :
    write (some v) segs (write (some earlier) segs slot) = write (some v) segs slot := by
  induction segs generalizing slot with
  | nil => rfl
  | cons segment rest ih =>
    rw [write_cons, write_cons, write_cons, child?_withChild, withChild_withChild,
      Option.getD_some, ih]

/-- What a removal leaves under the first segment: the last entry of a map is dropped, and the rest
of the path is removed from anything else. -/
theorem child?_write_none (segment : String) (rest : List String) (slot : Value) :
    (write none (segment :: rest) slot).child? segment =
      (slot.child? segment).bind fun old =>
        if rest.isEmpty && slot.map?.isSome then none else some (write none rest old) := by
  cases slot with
  | map entries =>
    rw [write, child?, child?, writeEntry]
    cases hget : Fields.get? entries segment with
    | none => simp [hget]
    | some old => cases hlast : rest.isEmpty <;> simp [map?]
  | list items =>
    rw [write, child?_list]
    cases hindex : itemIndex? items segment with
    | none => simp [child?_list, hindex]
    | some index =>
      have hlt : index < items.length := lt_of_itemIndex? hindex
      have hsame : itemIndex? (items.modify index (write none rest)) segment = some index :=
        (itemIndex?_of_length (List.length_modify _ _ _) segment).trans hindex
      dsimp only
      rw [child?_list, hsame]
      simp [hlt, map?]
  | _ => simp [write, child?]

theorem atSegments?_write_none_of_absent {segs : List String} {slot : Value}
    (h : slot.atSegments? segs = none) : (write none segs slot).atSegments? segs = none := by
  induction segs generalizing slot with
  | nil => cases h
  | cons segment rest ih =>
    rw [atSegments?] at h ⊢
    rw [child?_write_none]
    cases hchild : slot.child? segment with
    | none => rfl
    | some old =>
      rw [hchild, Option.bind_some] at h
      rw [Option.bind_some]
      split
      · rfl
      · exact ih h

/-- An entry is kept, or it is the one written, from what was there or from an empty map. -/
theorem mem_writeEntry {entries : Fields Value} {segment : String} {isLast : Bool}
    {below : Value → Value} {entry : String × Value}
    (h : entry ∈ writeEntry entries segment isLast false below) :
    entry ∈ entries ∨ entry = (segment, below ((Fields.get? entries segment).getD (.map []))) := by
  unfold writeEntry at h
  split at h
  · next old hold =>
    rw [hold]
    exact (Fields.mem_put (by simpa using h)).symm
  · next hnone =>
    rw [hnone]
    exact (Fields.mem_put (by simpa using h)).symm

/-- After a removal an entry is kept, or it is the one that something was removed from. -/
theorem mem_writeEntry_removes {entries : Fields Value} {segment : String} {isLast : Bool}
    {below : Value → Value} {entry : String × Value}
    (h : entry ∈ writeEntry entries segment isLast true below) :
    entry ∈ entries ∨ ∃ old, (segment, old) ∈ entries ∧ entry = (segment, below old) := by
  unfold writeEntry at h
  split at h
  · next old hold =>
    split at h
    · exact Or.inl (List.mem_of_mem_filter h)
    · rcases Fields.mem_put h with rfl | hmem
      · exact Or.inr ⟨old, Fields.mem_names_of_get? hold, rfl⟩
      · exact Or.inl hmem
  · exact Or.inl h

theorem atSegments?_empty (rest : List String) :
    atSegments? (.map []) rest = if rest = [] then some (.map []) else none := by
  cases rest <;> rfl

end Value

/-- A document is written like the map of its values. -/
theorem map_writeAt (values : Fields Value) (path : String) (v? : Option Value) :
    Value.map (writeAt values path v?) = Value.write v? (segments path) (.map values) := by
  rw [writeAt]
  cases hsegments : segments path with
  | nil => exact absurd hsegments (segments_ne_nil path)
  | cons head rest => rfl

theorem writeAt_writeAt (values : Fields Value) (path : String) (v earlier : Value) :
    writeAt (writeAt values path (some earlier)) path (some v) = writeAt values path (some v) := by
  apply Value.map.inj
  rw [map_writeAt, map_writeAt, map_writeAt, Value.write_write]

theorem valueAt?_eq (values : Fields Value) (path : String) :
    valueAt? values path = (Value.map values).atSegments? (segments path) := by
  rw [valueAt?]
  cases hsegments : segments path with
  | nil => exact absurd hsegments (segments_ne_nil path)
  | cons head rest => rfl

theorem valueAt?_writeAt_self (values : Fields Value) (path : String) (v : Value) :
    valueAt? (writeAt values path (some v)) path = some v := by
  rw [valueAt?_eq, map_writeAt, Value.atSegments?_write]

/-- Nothing comes about where nothing was and nothing is written. -/
theorem valueAt?_writeAt_none_of_absent {values : Fields Value} {path : String}
    (h : valueAt? values path = none) : valueAt? (writeAt values path none) path = none := by
  rw [valueAt?_eq] at h ⊢
  rw [map_writeAt]
  exact Value.atSegments?_write_none_of_absent h

end DocMapper
